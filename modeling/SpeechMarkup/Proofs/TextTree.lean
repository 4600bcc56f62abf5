import SpeechMarkup.Json.NumberText
import SpeechMarkup.Proofs.ReaderLoop

/-! The grammar of JSON. A text spells a tree: scalars as they are written, arrays of trees, and objects of names and
trees. The tokens of a tree are fixed, the blanks between them are not. -/

namespace SpeechMarkup.Json

section Tokens

/-- What may stand between the quotes of a string. The digits of an escape need not make up a character. -/
inductive InString : List Char → Prop where
  | nil : InString []
  | plain {c : Char} {body : List Char} (quote : c ≠ '"') (backslash : c ≠ '\\') (visible : ¬c < ' ')
      (later : InString body) : InString (c :: body)
  | escape {letter c : Char} {body : List Char} (known : shortEscape? letter = some c) (later : InString body) :
      InString ('\\' :: letter :: body)
  | unicode {a b c d : Char} {body : List Char} (digits : ∀ x ∈ [a, b, c, d], (hexDigit? x).isSome = true)
      (later : InString body) : InString ('\\' :: 'u' :: a :: b :: c :: d :: body)

def Digits (ds : List Char) : Prop :=
  ds ≠ [] ∧ ∀ c ∈ ds, c.isDigit = true

inductive FractionText : Option (List Char) → List Char → Prop where
  | none : FractionText none []
  | some {ds : List Char} (digits : Digits ds) : FractionText (some ds) ('.' :: ds)

/-- An exponent is negative or not, and behind its letter a sign may stand for that. -/
inductive ExponentText : Option (Bool × List Char) → List Char → Prop where
  | none : ExponentText none []
  | bare {e : Char} {ds : List Char} (letter : e = 'e' ∨ e = 'E') (digits : Digits ds) :
      ExponentText (some (false, ds)) (e :: ds)
  | plus {e : Char} {ds : List Char} (letter : e = 'e' ∨ e = 'E') (digits : Digits ds) :
      ExponentText (some (false, ds)) (e :: '+' :: ds)
  | minus {e : Char} {ds : List Char} (letter : e = 'e' ∨ e = 'E') (digits : Digits ds) :
      ExponentText (some (true, ds)) (e :: '-' :: ds)

/-- The parts of a number, and a text of it: nothing follows a zero at the front of the whole digits. -/
inductive NumberText.Spells (n : NumberText) : List Char → Prop where
  | intro {fraction exponent : List Char} (whole : Digits n.whole) (zero : n.whole.head? = some '0' → n.whole = ['0'])
      (fractional : FractionText n.fraction fraction) (exponential : ExponentText n.exponent exponent) :
      n.Spells ((if n.negative then ['-'] else []) ++ (n.whole ++ (fraction ++ exponent)))

inductive IsScalar : List Char → Prop where
  | null : IsScalar ['n', 'u', 'l', 'l']
  | true : IsScalar ['t', 'r', 'u', 'e']
  | false : IsScalar ['f', 'a', 'l', 's', 'e']
  | number {n : NumberText} {text : List Char} (spells : n.Spells text) : IsScalar text
  | string {body : List Char} (inside : InString body) : IsScalar ('"' :: (body ++ ['"']))

end Tokens

@[ext] structure Scalar where
  token : List Char
  isScalar : IsScalar token

@[ext] structure Name where
  body : List Char
  inString : InString body

def Name.token (name : Name) : List Char :=
  '"' :: (name.body ++ ['"'])

/-- The string that a name is read as: none where an escape in it is half of a character. -/
def Name.value? (name : Name) : Option String :=
  match stringBody (name.body ++ ['"']) with
  | .ok (s, _) => some s
  | .error _ => none

inductive Tree where
  | scalar (scalar : Scalar)
  | array (items : List Tree)
  | object (members : List (Name × Tree))

namespace Tree

def comma (first : Bool) : List (List Char) :=
  if first then [] else [[',']]

mutual

def tokens : Tree → List (List Char)
  | scalar s => [s.token]
  | array items => ['['] :: itemTokens true items
  | object members => ['{'] :: memberTokens true members

def itemTokens (first : Bool) : List Tree → List (List Char)
  | [] => [[']']]
  | t :: rest => comma first ++ (tokens t ++ itemTokens false rest)

def memberTokens (first : Bool) : List (Name × Tree) → List (List Char)
  | [] => [['}']]
  | (name, t) :: rest => comma first ++ (name.token :: [':'] :: (tokens t ++ memberTokens false rest))

end

@[elab_as_elim] theorem induct {P : Tree → Prop} (scalar : ∀ s, P (.scalar s))
    (array : ∀ items, (∀ t ∈ items, P t) → P (.array items))
    (object : ∀ members, (∀ m ∈ members, P m.2) → P (.object members)) : ∀ t, P t
  | .scalar s => scalar s
  | .array items => array items fun t _ => induct scalar array object t
  | .object members => object members fun m _ => induct scalar array object m.2
termination_by t => t
decreasing_by
  · have := List.sizeOf_lt_of_mem ‹t ∈ items›
    simp only [Tree.array.sizeOf_spec]
    omega
  · have := List.sizeOf_lt_of_mem ‹m ∈ members›
    obtain ⟨name, t⟩ := m
    simp only [Tree.object.sizeOf_spec, Prod.mk.sizeOf_spec] at this ⊢
    omega

end Tree

def Blank (space : List Char) : Prop :=
  ∀ c ∈ space, isSpace c = true

/-- A text begins with these tokens, each behind any blanks, and this is the rest of it. -/
inductive Woven : List (List Char) → List Char → List Char → Prop where
  | nil {rest : List Char} : Woven [] rest rest
  | cons {space token : List Char} {tokens : List (List Char)} {text rest : List Char} (blank : Blank space)
      (later : Woven tokens text rest) : Woven (token :: tokens) (space ++ (token ++ text)) rest

/-- A text spells a tree: it is the tokens of the tree, with blanks before, between and behind them. -/
def Tree.Spells (t : Tree) (text : List Char) : Prop :=
  ∃ space, Blank space ∧ Woven t.tokens text space

/-- What a text may go on with behind a value: a blank, a comma or a closing bracket, unless it ends there. -/
def Follows (rest : List Char) : Prop :=
  ∀ c ∈ rest.head?, isSpace c = true ∨ c = ',' ∨ c = ']' ∨ c = '}'

section Woven

variable {tokens later : List (List Char)} {token space text mid rest : List Char} {c : Char}

theorem woven_append_iff : Woven (tokens ++ later) text rest ↔ ∃ mid, Woven tokens text mid ∧ Woven later mid rest := by
  induction tokens generalizing text with
  | nil =>
    constructor
    · exact fun woven => ⟨text, .nil, woven⟩
    · rintro ⟨mid, first, second⟩
      cases first
      exact second
  | cons token tokens ih =>
    constructor
    · rintro (_ | ⟨blank, woven⟩)
      obtain ⟨mid, first, second⟩ := ih.1 woven
      exact ⟨mid, .cons blank first, second⟩
    · rintro ⟨mid, _ | ⟨blank, first⟩, second⟩
      exact .cons blank (ih.2 ⟨mid, first, second⟩)

theorem Woven.blank_append (woven : Woven tokens text rest) (nonempty : tokens ≠ []) (blank : Blank space) :
    Woven tokens (space ++ text) rest := by
  cases woven with
  | nil => exact absurd rfl nonempty
  | cons blanks later =>
    rw [← List.append_assoc]
    exact .cons (List.forall_mem_append.2 ⟨blank, blanks⟩) later

theorem Woven.length_le (woven : Woven tokens text rest) : rest.length ≤ text.length := by
  induction woven with
  | nil => exact Nat.le_refl _
  | cons _ _ ih =>
    simp only [List.length_append]
    omega

theorem Woven.length_lt (woven : Woven ((c :: token) :: tokens) text rest) : rest.length < text.length := by
  obtain _ | ⟨_, woven⟩ := woven
  have := woven.length_le
  simp only [List.length_append, List.length_cons]
  omega

theorem skipSpace_of_blank (blank : Blank space) (text : List Char) : skipSpace (space ++ text) = skipSpace text :=
  List.dropWhile_append_of_pos blank

theorem Woven.skipSpace (woven : Woven ((c :: token) :: tokens) text rest) (visible : isSpace c = false) :
    ∃ behind, skipSpace text = c :: (token ++ behind) ∧ Woven tokens behind rest := by
  obtain _ | @⟨_, _, _, behind, _, blank, woven⟩ := woven
  refine ⟨behind, ?_, woven⟩
  rw [skipSpace_of_blank blank, Json.skipSpace, List.cons_append, List.dropWhile_cons_of_neg (by simp [visible])]

theorem exists_blank (text : List Char) : ∃ space, Blank space ∧ text = space ++ Json.skipSpace text :=
  ⟨text.takeWhile isSpace, List.all_eq_true.1 List.all_takeWhile, List.takeWhile_append_dropWhile.symm⟩

theorem skipSpace_skipSpace (text : List Char) : Json.skipSpace (Json.skipSpace text) = Json.skipSpace text := by
  obtain ⟨space, blank, split⟩ := exists_blank text
  rw [← skipSpace_of_blank blank (Json.skipSpace text), ← split]

theorem woven_of_skipSpace {behind : List Char} (h : Json.skipSpace text = token ++ behind)
    (woven : Woven tokens behind rest) : Woven (token :: tokens) text rest := by
  obtain ⟨space, blank, split⟩ := exists_blank text
  rw [split, h]
  exact .cons blank woven

theorem blank_of_skipSpace (h : Json.skipSpace text = []) : Blank text := by
  obtain ⟨space, blank, split⟩ := exists_blank text
  rw [split, h, List.append_nil]
  exact blank

theorem follows_of_blank (blank : Blank space) : Follows space :=
  fun _ mem => .inl (blank _ (List.mem_of_head? mem))

theorem Woven.follows (woven : Woven ([c] :: tokens) text rest) (closing : c = ',' ∨ c = ']' ∨ c = '}') :
    Follows text := by
  obtain _ | @⟨space, _, _, _, _, blank, -⟩ := woven
  intro d mem
  cases space with
  | nil =>
    cases mem
    exact .inr closing
  | cons =>
    cases mem
    exact .inl (blank d List.mem_cons_self)

end Woven

end SpeechMarkup.Json
