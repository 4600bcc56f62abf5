import SpeechMarkup.Proofs.Fallback

/-! What it means that an element with a known tag conforms to the grammar of a target. The first part states it
without the rules: by the attributes that a tag keeps, their domains, those that it must have, and where the tag may
stand. The second part puts it in the words of the rules, as a verdict on each attribute. -/

namespace SpeechMarkup

namespace Tag

def mandatory : Tag → List String
  | amazonEffect => ["name"]
  | amazonEmotion => ["name", "intensity"]
  | amazonDomain => ["name"]
  | audio => ["src"]
  | emphasis => ["level"]
  | lang => ["xml:lang"]
  | _ => []

def KnownIn (tag : Tag) (locale : Locale) : Prop :=
  (tag = amazonEmotion → locale = .enUS) ∧ (tag = amazonDomain → locale = .enUS ∨ locale = .enAU)

/-- An element conforms to the grammar of a target under a parent with this name. -/
structure Conforms (tag : Tag) (target : Target) (parent : String) (e : Element) : Prop where
  kept : ∀ names, tag.allowed target.platform = some names → ∀ entry ∈ e.attributes.entries, entry.1 ∈ names
  valued : ∀ entry ∈ e.attributes.entries, ∀ domain,
    (tag.domains target e.attributes).lookup entry.1 = some domain → domain entry.2
  complete : ∀ attr ∈ tag.mandatory, e.attributes.contains attr = true
  known : tag.KnownIn target.locale
  placed : tag = desc → parent = "audio"
  timed : tag = par ∨ tag = seq → ∀ child ∈ e.childList, child.name ∈ ["par", "seq", "media"]

/-- Beyond that, a pause says something about its length. -/
structure ConformsFully (tag : Tag) (target : Target) (parent : String) (e : Element) : Prop
    extends tag.Conforms target parent e where
  pauseLength : tag = pause → e.attributes.contains "strength" = true ∨ e.attributes.contains "time" = true

theorem allowed_eq_none_iff {tag : Tag} {platform : Platform} :
    tag.allowed platform = none ↔ tag = desc ∨ tag = par ∨ tag = seq ∨ tag = speak := by
  cases platform <;> cases tag <;> decide

/-- The whitelist of a tag and the table of its domains name the same attributes. A tag without a whitelist has no
domains. -/
theorem allowed_perm_domains (tag : Tag) (target : Target) (attributes : Attributes) :
    ((tag.allowed target.platform).getD []).Perm ((tag.domains target attributes).map Prod.fst) := by
  cases tag with
  | audio =>
    by_cases google : target.platform = .google <;>
      simp only [allowed, domains, Domain.audio, google, if_true, if_false, Option.getD_some, List.map_cons,
        List.map_nil] <;> decide
  | media => simp only [allowed, domains, Domain.media, Option.getD_some, List.map_cons, List.map_nil]; decide
  | sayAs =>
    by_cases google : target.platform = .google <;>
      simp only [allowed, domains, google, if_true, if_false, Option.getD_some, List.map_cons,
        List.map_nil, List.cons_append, List.nil_append] <;> decide
  | amazonEmotion => exact .swap ..
  | prosody => exact .swap ..
  | _ => exact .refl _

theorem mem_allowed_iff {tag : Tag} {target : Target} {names : List String}
    (h : tag.allowed target.platform = some names) (attributes : Attributes) (attr : String) :
    attr ∈ names ↔ ∃ domain, (tag.domains target attributes).lookup attr = some domain := by
  have keys := (tag.allowed_perm_domains target attributes).mem_iff (a := attr)
  rw [h, Option.getD_some] at keys
  rw [keys, ← Option.isSome_iff_exists, List.lookup_isSome_iff]
  simp only [List.mem_map, beq_iff_eq, @eq_comm _ attr]

theorem domains_of_allowed_none {tag : Tag} {target : Target} (h : tag.allowed target.platform = none)
    (attributes : Attributes) : tag.domains target attributes = [] := by
  have keys := tag.allowed_perm_domains target attributes
  rw [h] at keys
  exact List.map_eq_nil_iff.1 keys.nil_eq.symm

end Tag

end SpeechMarkup
