import Mathlib

-- Texts as lists of characters, and how they are searched and cut.
namespace Text

variable {α : Type} [DecidableEq α]

-- What is before and after the first occurrence of a pattern.
def split? (pattern : List α) : List α → Option (List α × List α)
  | []        => if pattern = [] then some ([], []) else none
  | c :: rest =>
    if pattern <+: c :: rest then some ([], (c :: rest).drop pattern.length)
    else (split? pattern rest).map fun (before, after) => (c :: before, after)

-- What is left when a prefix and a suffix are taken away.
def between? (opening closing text : List α) : Option (List α) :=
  (text.dropPrefix? opening).bind (·.dropSuffix? closing)

def trim (p : α → Bool) (text : List α) : List α :=
  (text.dropWhile p).rdropWhile p

variable {pattern text before after opening closing inner rest : List α}

theorem split?_eq_none : split? pattern text = none ↔ ¬pattern <:+: text := by
  induction text
  case nil => simp [split?, List.infix_nil]
  case cons c rest hi =>
    rw [split?, List.infix_cons_iff, not_or, ← hi]
    split <;> simp [*]

theorem append_of_split? (h : split? pattern text = some (before, after)) :
    text = before ++ pattern ++ after := by
  induction text generalizing before
  case nil =>
    simp only [split?] at h
    split at h
    case isTrue hp => simp_all
    case isFalse => contradiction
  case cons c rest hi =>
    simp only [split?] at h
    split at h
    case isTrue hp =>
      have ⟨tail, ht⟩ := hp
      cases h
      simp [← ht]
    case isFalse =>
      have ⟨⟨b, a⟩, hs, he⟩ := Option.map_eq_some_iff.mp h
      cases he
      rw [hi hs]
      rfl

theorem length_lt_of_split? (hp : pattern ≠ []) (h : split? pattern text = some (before, after)) :
    after.length < text.length := by
  have hl := List.length_pos_iff.mpr hp
  rw [append_of_split? h, List.length_append, List.length_append]
  omega

theorem split?_append (hp : pattern ≠ []) : split? pattern (pattern ++ rest) = some ([], rest) := by
  cases pattern
  case nil => contradiction
  case cons c pattern =>
    have h : c :: pattern <+: c :: (pattern ++ rest) := List.prefix_append (c :: pattern) rest
    simp [split?, h]

theorem between?_eq_some :
    between? opening closing text = some inner ↔ text = opening ++ inner ++ closing := by
  simp [between?, Option.bind_eq_some_iff, List.dropPrefix?_eq_some_iff,
    List.dropSuffix?_eq_some_iff]

end Text
