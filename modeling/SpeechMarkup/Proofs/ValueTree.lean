import SpeechMarkup.Proofs.NumberForm
import SpeechMarkup.Proofs.TreeRecords

/-! Values and their trees. Every value has a tree, with the tokens that are written for its scalars and names, and both
of its texts spell it, the one on one line and the indented one. So what is read from a value's text is what is taken
off its tree. -/

namespace SpeechMarkup

namespace Json

section Numbers

open Decimal (IsWhole)

inductive Unsigned : List Char → Prop where
  | intro {whole fraction exponent : List Char} {f : Option (List Char)} {e : Option (Bool × List Char)}
      (isWhole : IsWhole whole) (fractional : FractionText f fraction) (exponential : ExponentText e exponent) :
      Unsigned (whole ++ (fraction ++ exponent))

theorem Unsigned.isScalar {token : List Char} (unsigned : Unsigned token) (negative : Bool) :
    IsScalar (minus negative ++ token) := by
  obtain @⟨whole, _, _, f, e, isWhole, fractional, exponential⟩ := unsigned
  exact .number (n := ⟨negative, whole, f, e⟩) (.intro isWhole.digits isWhole.zero fractional exponential)

theorem WholeText.unsigned {n : Nat} {ds : List Char} (h : WholeText n ds) : Unsigned ds := by
  simpa using Unsigned.intro h.whole .none .none

theorem FloatText.unsigned {q : ℚ} {text : List Char} (h : FloatText q text) : Unsigned text := by
  cases h with
  | places _ whole fraction =>
    rw [Numeral.text_of_fraction fraction.1]
    simpa using Unsigned.intro whole (.some fraction) .none
  | @power n _ e ds _ _ whole _ fraction _ _ exponent =>
    have exponential : ∃ x, ExponentText x ('e' :: (if e < 0 then '-' else '+') :: ds) := by
      split
      · exact ⟨_, .minus (.inl rfl) exponent.whole.digits⟩
      · exact ⟨_, .plus (.inl rfl) exponent.whole.digits⟩
    obtain ⟨x, exponential⟩ := exponential
    obtain ⟨whole, _ | ⟨c, places⟩⟩ := n
    · simpa [Numeral.text] using Unsigned.intro ‹_› .none exponential
    · simpa [Numeral.text] using Unsigned.intro ‹_› (.some ⟨List.cons_ne_nil _ _, fraction⟩) exponential

theorem Number.Canonical.isScalar {n : Number} {text : List Char} (h : n.Canonical text) : IsScalar text := by
  cases h with
  | integer whole => exact whole.unsigned.isScalar _
  | zero negative =>
    have digits : Digits ['0'] := ⟨by simp, by simp⟩
    have unsigned : Unsigned ['0', '.', '0'] := .intro ⟨digits, fun _ => rfl⟩ (.some digits) .none
    exact unsigned.isScalar negative
  | float negative _ _ _ text => exact text.unsigned.isScalar negative
  | infinity => exact .null
  | nan => exact .null

end Numbers

section Trees

theorem inString_escaped (s : String) : InString (s.toList.flatMap escapeChar) := by
  obtain ⟨name, same, -⟩ := exists_name_of_stringBody (stringBody_text s [])
  rw [List.append_cancel_right same]
  exact name.inString

def Name.ofString (s : String) : Name :=
  ⟨s.toList.flatMap escapeChar, inString_escaped s⟩

theorem Name.decodes_ofString (s : String) : (ofString s).Decodes s :=
  stringBody_text s

def Name.scalar (name : Name) : Scalar :=
  ⟨name.token, .string name.inString⟩

def Scalar.ofBool (b : Bool) : Scalar :=
  if b then ⟨['t', 'r', 'u', 'e'], .true⟩ else ⟨['f', 'a', 'l', 's', 'e'], .false⟩

namespace Value

mutual

/-- The tree whose tokens are written for a value. -/
def tree : Value → Tree
  | null => .null
  | bool b => .scalar (.ofBool b)
  | number n => .scalar ⟨n.text, n.canonical_text.isScalar⟩
  | string s => .scalar (Name.ofString s).scalar
  | array items => .array (itemTrees items)
  | object members => .object (memberTrees members)

def itemTrees : List Value → List Tree
  | [] => []
  | x :: rest => tree x :: itemTrees rest

def memberTrees : List (String × Value) → List (Name × Tree)
  | [] => []
  | (name, x) :: rest => (.ofString name, tree x) :: memberTrees rest

end

def memberTree (m : String × Value) : Name × Tree :=
  (.ofString m.1, m.2.tree)

theorem itemTrees_eq_map (items : List Value) : itemTrees items = items.map tree := by
  induction items with
  | nil => rfl
  | cons x rest ih => rw [itemTrees, ih, List.map_cons]

theorem memberTrees_eq_map (members : List (String × Value)) : memberTrees members = members.map memberTree := by
  induction members with
  | nil => rfl
  | cons m rest ih => rw [memberTrees, ih, List.map_cons, memberTree]

theorem prettyItems_eq_map (indent : Nat) (items : List Value) :
    prettyItems indent items = items.map (pretty indent) := by
  induction items with
  | nil => rfl
  | cons x rest ih => rw [prettyItems, ih, List.map_cons]

def prettyMember (indent : Nat) (m : String × Value) : List Char :=
  stringText m.1 ++ ':' :: ' ' :: m.2.pretty indent

theorem prettyMembers_eq_map (indent : Nat) (members : List (String × Value)) :
    prettyMembers indent members = members.map (prettyMember indent) := by
  induction members with
  | nil => rfl
  | cons m rest ih => rw [prettyMembers, ih, List.map_cons, prettyMember]

@[elab_as_elim] theorem induct {P : Value → Prop} (null : P .null) (bool : ∀ b, P (.bool b))
    (number : ∀ n, P (.number n)) (string : ∀ s, P (.string s)) (array : ∀ items, (∀ x ∈ items, P x) → P (.array items))
    (object : ∀ members, (∀ m ∈ members, P m.2) → P (.object members)) : ∀ v, P v
  | .null => null
  | .bool b => bool b
  | .number n => number n
  | .string s => string s
  | .array items => array items fun x _ => induct null bool number string array object x
  | .object members => object members fun m _ => induct null bool number string array object m.2
termination_by v => v
decreasing_by
  · have := List.sizeOf_lt_of_mem ‹x ∈ items›
    simp only [Value.array.sizeOf_spec]
    omega
  · have := List.sizeOf_lt_of_mem ‹m ∈ members›
    obtain ⟨name, x⟩ := m
    simp only [Value.object.sizeOf_spec, Prod.mk.sizeOf_spec] at this ⊢
    omega

end Value

/-- What a tree tells: scalars by what their tokens mean, items one by one, and members in their order. -/
inductive Tree.Tells : Tree → Value → Prop where
  | null : Tells .null .null
  | bool (b : Bool) : Tells (.scalar (.ofBool b)) (.bool b)
  | number {s : Scalar} {n : Number} (canonical : n.Canonical s.token) : Tells (.scalar s) (.number n)
  | string {name : Name} {s : String} (decodes : name.Decodes s) : Tells (.scalar name.scalar) (.string s)
  | array {ts : List Tree} {xs : List Value} (items : List.Forall₂ Tells ts xs) : Tells (.array ts) (.array xs)
  | object {ms : List (Name × Tree)} {xs : List (String × Value)}
      (names : List.Forall₂ (fun m x => m.1.Decodes x.1) ms xs)
      (values : List.Forall₂ (fun m x => Tells m.2 x.2) ms xs) : Tells (.object ms) (.object xs)

end Trees

section Written

variable {tokens : List (List Char)} {entries : List (List (List Char))} {text gap gap' : List Char}
  {texts : List (List Char)} {ts : List Tree} {ms : List (Name × Tree)}

/-- The text is written for these tokens, and whatever follows it is left. -/
def Writes (tokens : List (List Char)) (text : List Char) : Prop :=
  tokens ≠ [] ∧ ∀ rest, Woven tokens (text ++ rest) rest

theorem itemTokens_eq_intercalate (ts : List Tree) :
    Tree.itemTokens true ts = List.intercalate [[',']] (ts.map Tree.tokens) ++ [[']']] := by
  cases ts with
  | nil => rw [Tree.itemTokens]; rfl
  | cons t ts =>
    rw [Tree.itemTokens]
    induction ts generalizing t with
    | nil => simp [Tree.itemTokens, Tree.comma]
    | cons u ts ih => simpa [Tree.itemTokens, Tree.comma] using ih u

def ofMember (m : Name × Tree) : List (List Char) :=
  m.1.token :: [':'] :: m.2.tokens

theorem memberTokens_eq_intercalate (ms : List (Name × Tree)) :
    Tree.memberTokens true ms = List.intercalate [[',']] (ms.map ofMember) ++ [['}']] := by
  cases ms with
  | nil => rw [Tree.memberTokens]; rfl
  | cons m ms =>
    rw [Tree.memberTokens]
    induction ms generalizing m with
    | nil => simp [Tree.memberTokens, Tree.comma, ofMember]
    | cons n ms ih => simpa [Tree.memberTokens, Tree.comma, ofMember] using ih n

theorem woven_token {rest : List Char} (token : List Char) (later : Woven tokens text rest) :
    Woven (token :: tokens) (token ++ text) rest :=
  Woven.cons (List.forall_mem_nil _ : Blank []) later

theorem woven_separated (blank : Blank gap) (each : List.Forall₂ Writes entries texts) (rest : List Char) :
    Woven (List.intercalate [[',']] entries) (separated (',' :: gap) texts ++ rest) rest := by
  unfold separated
  induction each with
  | nil => exact .nil
  | @cons tokens text entries texts first others ih =>
    cases others with
    | nil => simpa using first.2 rest
    | @cons next _ entries _ second _ =>
      have some : List.intercalate [[',']] (next :: entries) ≠ [] := by
        cases entries <;> simp [List.intercalate_cons_cons, second.1]
      rw [List.intercalate_cons_cons, List.intercalate_cons_cons]
      simp only [List.append_assoc, List.cons_append]
      exact woven_append_iff.2 ⟨_, first.2 _, woven_token [','] (ih.blank_append some blank)⟩

theorem writes_bracketed (opening closing : Char) (blank : Blank gap) (blank' : Blank gap')
    (each : List.Forall₂ Writes entries texts) :
    Writes ([opening] :: (List.intercalate [[',']] entries ++ [[closing]]))
      (opening :: gap ++ separated (',' :: gap) texts ++ gap' ++ [closing]) := by
  refine ⟨List.cons_ne_nil _ _, fun rest => ?_⟩
  have ending : Woven [[closing]] (gap' ++ ([closing] ++ rest)) rest := .cons blank' .nil
  have inside := woven_append_iff.2 ⟨_, woven_separated blank each (gap' ++ ([closing] ++ rest)), ending⟩
  have spaced := inside.blank_append (List.append_ne_nil_of_right_ne_nil _ (List.cons_ne_nil _ _)) blank
  simpa using woven_token [opening] spaced

theorem writes_member (s : String) {space : List Char} (blank : Blank space) (writes : Writes tokens text) :
    Writes ((Name.ofString s).token :: [':'] :: tokens) (stringText s ++ ':' :: (space ++ text)) := by
  refine ⟨List.cons_ne_nil _ _, fun rest => ?_⟩
  have value := woven_token [':'] ((writes.2 rest).blank_append writes.1 blank)
  simpa [Name.token, Name.ofString, stringText] using woven_token (Name.ofString s).token value

theorem writes_scalar (s : Scalar) : Writes (Tree.scalar s).tokens s.token := by
  rw [Tree.tokens]
  exact ⟨List.cons_ne_nil _ _, fun rest => woven_token s.token .nil⟩

theorem blank_nil : Blank [] :=
  List.forall_mem_nil _

theorem blank_lineBreak (indent : Nat) : Blank (lineBreak indent) := by
  refine List.forall_mem_cons.2 ⟨rfl, fun c mem => ?_⟩
  rw [List.eq_of_mem_replicate mem]
  rfl

namespace Value

theorem writes_tree (v : Value) :
    Writes v.tree.tokens v.compact ∧ ∀ indent, Writes v.tree.tokens (v.pretty indent) := by
  induction v using Value.induct with
  | null => exact ⟨writes_scalar _, fun _ => writes_scalar _⟩
  | bool b => cases b <;> exact ⟨writes_scalar _, fun _ => writes_scalar _⟩
  | number n => exact ⟨writes_scalar _, fun _ => writes_scalar _⟩
  | string s => exact ⟨writes_scalar _, fun _ => writes_scalar _⟩
  | array items ih =>
    have each {write : Value → List Char} (writes : ∀ x ∈ items, Writes x.tree.tokens (write x)) :
        List.Forall₂ Writes ((items.map tree).map Tree.tokens) (items.map write) := by
      rw [List.map_map, List.forall₂_map_left_iff, List.forall₂_map_right_iff, List.forall₂_same]
      exact writes
    rw [tree, Tree.tokens, itemTokens_eq_intercalate, itemTrees_eq_map]
    refine ⟨?_, fun indent => ?_⟩
    · rw [compact, compactItems_eq_map]
      simpa using writes_bracketed '[' ']' blank_nil blank_nil (each fun x mem => (ih x mem).1)
    · have writes := writes_bracketed '[' ']' (blank_lineBreak (indent + 1)) (blank_lineBreak indent)
        (each fun x mem => (ih x mem).2 (indent + 1))
      cases items with
      | nil => simpa [pretty, separated] using writes_bracketed '[' ']' blank_nil blank_nil .nil
      | cons x rest =>
        rw [pretty, prettyItems_eq_map]
        simpa using writes
  | object members ih =>
    have each {write : String × Value → List Char}
        (writes : ∀ m ∈ members, Writes (ofMember (memberTree m)) (write m)) :
        List.Forall₂ Writes ((members.map memberTree).map ofMember) (members.map write) := by
      rw [List.map_map, List.forall₂_map_left_iff, List.forall₂_map_right_iff, List.forall₂_same]
      exact writes
    rw [tree, Tree.tokens, memberTokens_eq_intercalate, memberTrees_eq_map]
    refine ⟨?_, fun indent => ?_⟩
    · have writes : ∀ m ∈ members, Writes (ofMember (memberTree m)) (memberText m) := fun m mem =>
        writes_member m.1 blank_nil (ih m mem).1
      rw [compact, compactMembers_eq_map]
      simpa using writes_bracketed '{' '}' blank_nil blank_nil (each writes)
    · have blank : Blank [' '] := List.forall_mem_singleton.2 rfl
      have writes : ∀ m ∈ members, Writes (ofMember (memberTree m)) (prettyMember (indent + 1) m) := fun m mem =>
        writes_member m.1 blank ((ih m mem).2 (indent + 1))
      have enclosed := writes_bracketed '{' '}' (blank_lineBreak (indent + 1)) (blank_lineBreak indent) (each writes)
      cases members with
      | nil => simpa [pretty, separated] using writes_bracketed '{' '}' blank_nil blank_nil .nil
      | cons m rest =>
        rw [pretty, prettyMembers_eq_map]
        simpa using enclosed

theorem spells_tree (v : Value) : v.tree.Spells v.compact ∧ ∀ indent, v.tree.Spells (v.pretty indent) := by
  have spells {text : List Char} (writes : Writes v.tree.tokens text) : v.tree.Spells text := by
    have woven := writes.2 []
    rw [List.append_nil] at woven
    exact ⟨[], List.forall_mem_nil _, woven⟩
  exact ⟨spells v.writes_tree.1, fun indent => spells (v.writes_tree.2 indent)⟩

end Value

end Written

end Json

end SpeechMarkup
