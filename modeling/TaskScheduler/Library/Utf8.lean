import Mathlib

namespace Utf8

abbrev encode : Char → List UInt8 :=
  String.utf8EncodeChar

theorem length_encode (c : Char) : (encode c).length = c.utf8Size :=
  String.length_utf8EncodeChar c

def InRange (range : Nat × Nat) (b : UInt8) : Prop :=
  range.1 ≤ b.toNat ∧ b.toNat ≤ range.2

instance : DecidableRel InRange := fun _ _ => inferInstanceAs (Decidable (_ ∧ _))

def tail : Nat × Nat := (0x80, 0xBF)

-- The second byte of a character rules out what the first bytes of shorter encodings, of
-- surrogates and of numbers past the last character would stand for.
def second (lead : UInt8) : Nat × Nat :=
  if      lead.toNat = 0xE0 then (0xA0, 0xBF)
  else if lead.toNat = 0xED then (0x80, 0x9F)
  else if lead.toNat = 0xF0 then (0x90, 0xBF)
  else if lead.toNat = 0xF4 then (0x80, 0x8F)
  else tail

-- The table of well-formed byte sequences: what the bytes after the first one range over.
def ranges (lead : UInt8) : Option (List (Nat × Nat)) :=
  if      lead.toNat ≤ 0x7F then some []
  else if lead.toNat < 0xC2 then none
  else if lead.toNat ≤ 0xDF then some [tail]
  else if lead.toNat ≤ 0xEF then some [second lead, tail]
  else if lead.toNat ≤ 0xF4 then some [second lead, tail, tail]
  else none

def decode : List UInt8 → Char
  | [a]          => .ofNat a.toNat
  | [a, b]       => .ofNat (a.toNat % 32 * 64 + b.toNat % 64)
  | [a, b, c]    => .ofNat (a.toNat % 16 * 4096 + b.toNat % 64 * 64 + c.toNat % 64)
  | [a, b, c, d] =>
    .ofNat (a.toNat % 8 * 262144 + b.toNat % 64 * 4096 + c.toNat % 64 * 64 + d.toNat % 64)
  | _            => '�'

section Table

variable {a b c d : UInt8} {n : Nat}

theorem toNat_val_ofNat (h : n.isValidChar) : (Char.ofNat n).val.toNat = n := by
  change (Char.ofNat n).toNat = n
  rw [Char.toNat_ofNat, if_pos h]

theorem ofNat_eq (h : n = b.toNat) : UInt8.ofNat n = b := by
  simp [h]

theorem encode_decode₁ (ha : a.toNat ≤ 0x7F) : encode (decode [a]) = [a] := by
  have hv := toNat_val_ofNat (n := a.toNat) (by omega)
  simp only [decode, encode, String.utf8EncodeChar, hv]
  rw [if_pos ha, ofNat_eq rfl]

theorem encode_decode₂ (ha : 0xC2 ≤ a.toNat ∧ a.toNat ≤ 0xDF) (hb : InRange tail b) :
    encode (decode [a, b]) = [a, b] := by
  simp only [InRange, tail] at hb
  have hv := toNat_val_ofNat (n := a.toNat % 32 * 64 + b.toNat % 64) (by omega)
  simp only [decode, encode, String.utf8EncodeChar, hv]
  rw [if_neg (by omega), if_pos (by omega), ofNat_eq (b := a) (by omega),
    ofNat_eq (b := b) (by omega)]

theorem encode_decode₃ (ha : 0xE0 ≤ a.toNat ∧ a.toNat ≤ 0xEF) (hb : InRange (second a) b)
    (hc : InRange tail c) : encode (decode [a, b, c]) = [a, b, c] := by
  have ⟨hb, hlow, hhigh⟩ : InRange tail b ∧ (a.toNat = 0xE0 → 0xA0 ≤ b.toNat) ∧
      (a.toNat = 0xED → b.toNat ≤ 0x9F) := by
    simp only [InRange, second, tail] at hb ⊢
    split_ifs at hb <;> omega
  simp only [InRange, tail] at hb hc
  have hv := toNat_val_ofNat
    (n := a.toNat % 16 * 4096 + b.toNat % 64 * 64 + c.toNat % 64) (by omega)
  simp only [decode, encode, String.utf8EncodeChar, hv]
  rw [if_neg (by omega), if_neg (by omega), if_pos (by omega), ofNat_eq (b := a) (by omega),
    ofNat_eq (b := b) (by omega), ofNat_eq (b := c) (by omega)]

theorem encode_decode₄ (ha : 0xF0 ≤ a.toNat ∧ a.toNat ≤ 0xF4) (hb : InRange (second a) b)
    (hc : InRange tail c) (hd : InRange tail d) :
    encode (decode [a, b, c, d]) = [a, b, c, d] := by
  have ⟨hb, hlow, hhigh⟩ : InRange tail b ∧ (a.toNat = 0xF0 → 0x90 ≤ b.toNat) ∧
      (a.toNat = 0xF4 → b.toNat ≤ 0x8F) := by
    simp only [InRange, second, tail] at hb ⊢
    split_ifs at hb <;> omega
  simp only [InRange, tail] at hb hc hd
  have hv := toNat_val_ofNat
    (n := a.toNat % 8 * 262144 + b.toNat % 64 * 4096 + c.toNat % 64 * 64 + d.toNat % 64) (by omega)
  simp only [decode, encode, String.utf8EncodeChar, hv]
  rw [if_neg (by omega), if_neg (by omega), if_neg (by omega), ofNat_eq (b := a) (by omega),
    ofNat_eq (b := b) (by omega), ofNat_eq (b := c) (by omega), ofNat_eq (b := d) (by omega)]

end Table

theorem encode_decode {lead : UInt8} {rest : List UInt8} {rs : List (Nat × Nat)}
    (hr : ranges lead = some rs) (h : List.Forall₂ InRange rs rest) :
    encode (decode (lead :: rest)) = lead :: rest := by
  simp only [ranges] at hr
  split_ifs at hr <;> cases hr
  case pos hl =>
    cases h
    exact encode_decode₁ hl
  case pos hl =>
    rcases h with _ | ⟨hb, _ | _⟩
    exact encode_decode₂ (by omega) hb
  case pos hl =>
    rcases h with _ | ⟨hb, _ | ⟨hc, _ | _⟩⟩
    exact encode_decode₃ (by omega) hb hc
  case pos hl =>
    rcases h with _ | ⟨hb, _ | ⟨hc, _ | ⟨hd, _ | _⟩⟩⟩
    exact encode_decode₄ (by omega) hb hc hd

theorem inRange_ofNat {range : Nat × Nat} {n : Nat} :
    InRange range (UInt8.ofNat n) ↔ range.1 ≤ n % 256 ∧ n % 256 ≤ range.2 := by
  simp [InRange]

-- The encodings of characters are in the table.
theorem encode_ranges (c : Char) :
    ∃ lead rest rs, encode c = lead :: rest ∧ ranges lead = some rs ∧
      List.Forall₂ InRange rs rest := by
  have hv : c.val.toNat.isValidChar := c.valid
  simp only [encode, String.utf8EncodeChar]
  generalize c.val.toNat = v at hv
  have ht : ∀ n, n % 64 = n → InRange tail (UInt8.ofNat (n + 128)) := fun n hn => by
    rw [inRange_ofNat, tail]
    omega
  split_ifs
  case pos =>
    refine ⟨_, _, [], rfl, ?_, .nil⟩
    rw [ranges, UInt8.toNat_ofNat', if_pos (by omega)]
  case pos =>
    refine ⟨_, _, [tail], rfl, ?_, .cons (ht _ (by omega)) .nil⟩
    rw [ranges, UInt8.toNat_ofNat', if_neg (by omega), if_neg (by omega), if_pos (by omega)]
  case pos =>
    refine ⟨_, _, [second (.ofNat (v / 4096 % 16 + 224)), tail], rfl, ?_,
      .cons ?_ <| .cons (ht _ (by omega)) .nil⟩
    case refine_1 =>
      rw [ranges, UInt8.toNat_ofNat', if_neg (by omega), if_neg (by omega), if_neg (by omega),
        if_pos (by omega)]
    case refine_2 =>
      simp only [inRange_ofNat, second, UInt8.toNat_ofNat', tail]
      split_ifs <;> omega
  case neg =>
    refine ⟨_, _, [second (.ofNat (v / 262144 % 8 + 240)), tail, tail], rfl, ?_,
      .cons ?_ <| .cons (ht _ (by omega)) <| .cons (ht _ (by omega)) .nil⟩
    case refine_1 =>
      rw [ranges, UInt8.toNat_ofNat', if_neg (by omega), if_neg (by omega), if_neg (by omega),
        if_neg (by omega), if_pos (by omega)]
    case refine_2 =>
      simp only [inRange_ofNat, second, UInt8.toNat_ofNat', tail]
      split_ifs <;> omega

-- No range of the table is empty.
theorem ranges_nonempty {lead : UInt8} {rs : List (Nat × Nat)} (hr : ranges lead = some rs) :
    ∀ r ∈ rs, InRange r (UInt8.ofNat r.1) := by
  have hs : InRange (second lead) (UInt8.ofNat (second lead).1) := by
    simp only [second, inRange_ofNat, tail]
    split_ifs <;> decide
  have ht : InRange tail (UInt8.ofNat tail.1) := by decide
  simp only [ranges] at hr
  split_ifs at hr <;> cases hr <;> simp [hs, ht]

-- The bytes that come first in the encoding of some character.
def Begins (bytes : List UInt8) : Prop :=
  ∃ c, bytes <+: encode c

theorem begins_cons {lead : UInt8} {rest : List UInt8} :
    Begins (lead :: rest) ↔
      ∃ rs, ranges lead = some rs ∧ rest.length ≤ rs.length ∧
        List.Forall₂ InRange (rs.take rest.length) rest := by
  constructor
  case mp =>
    intro ⟨c, more, hm⟩
    have ⟨a, bytes, rs, he, hr, hf⟩ := encode_ranges c
    rw [he, List.cons_append, List.cons.injEq] at hm
    have ⟨ha, hb⟩ := hm
    subst ha hb
    have hl := hf.length_eq
    refine ⟨rs, hr, by simp at hl; omega, List.forall₂_take_append _ _ _ hf⟩
  case mpr =>
    intro ⟨rs, hr, hl, hf⟩
    let more := (rs.drop rest.length).map fun r => UInt8.ofNat r.1
    have hm : List.Forall₂ InRange (rs.drop rest.length) more := by
      refine List.forall₂_map_right_iff.mpr (List.forall₂_same.mpr fun r h => ?_)
      exact ranges_nonempty hr r (List.mem_of_mem_drop h)
    have hf : List.Forall₂ InRange (rs.take rest.length ++ rs.drop rest.length) (rest ++ more) :=
      List.rel_append hf hm
    rw [List.take_append_drop] at hf
    exact ⟨_, more, (encode_decode hr hf).symm⟩

-- How many bytes are in the ranges, before the first that is not.
def matched : (ranges : List (Nat × Nat)) → (bytes : List UInt8) → Nat
  | range :: ranges, b :: bytes => if InRange range b then matched ranges bytes + 1 else 0
  | _, _                        => 0

section Matched

variable {rs : List (Nat × Nat)} {bytes : List UInt8}

theorem matched_le_ranges : matched rs bytes ≤ rs.length := by
  fun_induction matched rs bytes
  case case1 => simpa
  all_goals simp

theorem matched_le_bytes : matched rs bytes ≤ bytes.length := by
  fun_induction matched rs bytes
  case case1 => simpa
  all_goals simp

theorem forall₂_take_matched (rs : List (Nat × Nat)) (bytes : List UInt8) :
    List.Forall₂ InRange (rs.take (matched rs bytes)) (bytes.take (matched rs bytes)) := by
  fun_induction matched rs bytes
  case case1 h hi => exact .cons h hi
  all_goals simp

theorem le_matched {n : Nat} (hr : n ≤ rs.length) (hb : n ≤ bytes.length)
    (h : List.Forall₂ InRange (rs.take n) (bytes.take n)) : n ≤ matched rs bytes := by
  fun_induction matched rs bytes generalizing n
  case case1 hi =>
    cases n
    case zero => simp
    case succ n =>
      rcases h with _ | ⟨_, h⟩
      exact Nat.succ_le_succ <| hi (Nat.le_of_succ_le_succ hr) (Nat.le_of_succ_le_succ hb) h
  case case2 hn =>
    cases n
    case zero => simp
    case succ n =>
      rcases h with _ | ⟨h, _⟩
      contradiction
  case case3 rs bytes hc =>
    cases n
    case zero => simp
    case succ n =>
      cases rs <;> cases bytes <;> simp at hr hb
      exact (hc _ _ _ _ rfl rfl).elim

end Matched

-- What a sequence of bytes is made of.
inductive Piece
  | character (c : Char)
  | illFormed (part : List UInt8)
  deriving DecidableEq

-- `Utf8Chunks` goes on to the first byte that no character has there.
def pieces : (bytes : List UInt8) → List Piece
  | []           => []
  | lead :: rest =>
    match ranges lead with
    | none        => .illFormed [lead] :: pieces rest
    | some ranges =>
      let n := matched ranges rest
      let bytes := lead :: rest.take n
      (if n = ranges.length then .character (decode bytes) else .illFormed bytes) ::
        pieces (rest.drop n)
termination_by bytes => bytes.length

-- The bytes that one replacement character stands for, where no character is encoded: the most
-- that some character begins with, and one byte where there is no such character.
structure MaximalSubpart (part bytes : List UInt8) : Prop where
  starts   : part <+: bytes
  nonempty : part ≠ []
  invalid  : ∀ c, ¬encode c <+: bytes
  begins   : Begins part ∨ part.length = 1
  longest  : ∀ other, other <+: bytes → Begins other → other.length ≤ part.length

-- The characters and ill-formed parts in a sequence of bytes.
inductive Splits : (bytes : List UInt8) → (pieces : List Piece) → Prop
  | nil : Splits [] []
  | character {c bytes pieces} :
    Splits bytes pieces → Splits (encode c ++ bytes) (.character c :: pieces)
  | illFormed {part bytes pieces} :
    MaximalSubpart part (part ++ bytes) → Splits bytes pieces →
    Splits (part ++ bytes) (.illFormed part :: pieces)

section Scan

variable {lead : UInt8} {rest part part' bytes other : List UInt8} {rs : List (Nat × Nat)}
  {c : Char}

theorem matched_of_encode (hr : ranges lead = some rs) (h : encode c <+: lead :: rest) :
    matched rs rest = rs.length := by
  have ⟨a, bytes, rs', he, hr', hf⟩ := encode_ranges c
  rw [he, List.cons_prefix_cons] at h
  have ⟨ha, more, hm⟩ := h
  subst ha hm
  cases hr'.symm.trans hr
  refine matched_le_ranges.antisymm (le_matched le_rfl ?_ ?_)
  case refine_1 => simp [hf.length_eq]
  case refine_2 => rwa [List.take_length, hf.length_eq, List.take_left]

theorem encode_of_matched (hr : ranges lead = some rs) (h : matched rs rest = rs.length) :
    encode (decode (lead :: rest.take (matched rs rest))) =
      lead :: rest.take (matched rs rest) := by
  refine encode_decode hr ?_
  have hf := forall₂_take_matched rs rest
  rwa [h, List.take_length, ← h] at hf

theorem Begins.length_le (hb : Begins other) (hr : ranges lead = some rs)
    (ho : other <+: lead :: rest) : other.length ≤ matched rs rest + 1 := by
  cases other
  case nil => simp
  case cons a other =>
    have ⟨ha, more, hm⟩ := List.cons_prefix_cons.mp ho
    subst ha hm
    have ⟨rs', hr', hl, hf⟩ := begins_cons.mp hb
    cases hr'.symm.trans hr
    refine Nat.succ_le_succ (le_matched hl (by simp) ?_)
    rwa [List.take_left]

theorem begins_matched (hr : ranges lead = some rs) :
    Begins (lead :: rest.take (matched rs rest)) := by
  have hl : (rest.take (matched rs rest)).length = matched rs rest := by
    simp [matched_le_bytes]
  refine begins_cons.mpr ⟨rs, hr, hl.trans_le matched_le_ranges, ?_⟩
  rw [hl]
  exact forall₂_take_matched rs rest

theorem maximalSubpart_of_none (hr : ranges lead = none) :
    MaximalSubpart [lead] (lead :: rest) where
  starts      := List.prefix_append [lead] rest
  nonempty    := List.cons_ne_nil _ _
  begins      := .inr rfl
  invalid c h := by
    have ⟨a, _, _, he, hr', _⟩ := encode_ranges c
    rw [he, List.cons_prefix_cons] at h
    simp [h.left, hr] at hr'
  longest other ho hb := by
    cases other
    case nil => simp
    case cons a other =>
      have ⟨_, hr', _⟩ := begins_cons.mp hb
      simp [(List.cons_prefix_cons.mp ho).left, hr] at hr'

theorem maximalSubpart_matched (hr : ranges lead = some rs) (hn : matched rs rest ≠ rs.length) :
    MaximalSubpart (lead :: rest.take (matched rs rest)) (lead :: rest) where
  starts      := List.cons_prefix_cons.mpr ⟨rfl, List.take_prefix _ _⟩
  nonempty    := List.cons_ne_nil _ _
  begins      := .inl (begins_matched hr)
  invalid c h := hn (matched_of_encode hr h)
  longest other ho hb := by
    have hl := hb.length_le hr ho
    simpa [matched_le_bytes] using hl

theorem splits_pieces (bytes : List UInt8) : Splits bytes (pieces bytes) := by
  fun_induction pieces bytes
  case case1 => exact .nil
  case case2 lead rest hr hi => exact .illFormed (maximalSubpart_of_none hr) hi
  case case3 lead rest rs hr n bytes hi =>
    have he : lead :: rest = bytes ++ rest.drop n := by simp [bytes]
    split
    case isTrue h =>
      have hc : encode (decode bytes) = bytes := encode_of_matched hr h
      rw [he]
      nth_rewrite 1 [← hc]
      exact .character hi
    case isFalse h =>
      have hm := maximalSubpart_matched hr h
      rw [he] at hm ⊢
      exact .illFormed hm hi

theorem MaximalSubpart.length_le (h : MaximalSubpart part bytes)
    (h' : MaximalSubpart part' bytes) : part.length ≤ part'.length := by
  rcases h.begins with hb | hl
  case inl => exact h'.longest part h.starts hb
  case inr =>
    have := List.length_pos_of_ne_nil h'.nonempty
    omega

theorem MaximalSubpart.unique (h : MaximalSubpart part bytes) (h' : MaximalSubpart part' bytes) :
    part = part' := by
  have hl := (h.length_le h').antisymm (h'.length_le h)
  exact List.IsPrefix.eq_of_length (List.prefix_of_prefix_length_le h.starts h'.starts hl.le) hl

theorem encode_injective : Function.Injective encode := by
  intro c c' h
  have hd := ByteArray.utf8DecodeChar?_utf8EncodeChar_append (b := .empty) (c := c)
  rw [show String.utf8EncodeChar c = String.utf8EncodeChar c' from h,
    ByteArray.utf8DecodeChar?_utf8EncodeChar_append] at hd
  exact (Option.some.inj hd).symm

theorem pieces_encode_append (c : Char) (bytes : List UInt8) :
    pieces (encode c ++ bytes) = .character c :: pieces bytes := by
  have ⟨lead, rest, rs, he, hr, hf⟩ := encode_ranges c
  have hm : matched rs (rest ++ bytes) = rs.length := matched_of_encode (c := c) hr (by simp [he])
  have hd : decode (lead :: rest) = c := encode_injective ((encode_decode hr hf).trans he.symm)
  rw [he, List.cons_append, pieces, hr]
  simp [hm, hf.length_eq, hd]

theorem MaximalSubpart.pieces_append (h : MaximalSubpart part (part ++ bytes)) :
    pieces (part ++ bytes) = .illFormed part :: pieces bytes := by
  cases part
  case nil => exact (h.nonempty rfl).elim
  case cons lead rest =>
    rw [List.cons_append] at h ⊢
    rw [pieces]
    cases hr : ranges lead
    case none =>
      cases h.unique (maximalSubpart_of_none hr)
      rfl
    case some rs =>
      have hn : matched rs (rest ++ bytes) ≠ rs.length := fun hn => by
        refine h.invalid (decode (lead :: (rest ++ bytes).take (matched rs (rest ++ bytes)))) ?_
        rw [encode_of_matched hr hn]
        exact List.cons_prefix_cons.mpr ⟨rfl, List.take_prefix _ _⟩
      have hu := (List.cons.inj (h.unique (maximalSubpart_matched hr hn))).right
      have hd : (rest ++ bytes).drop (matched rs (rest ++ bytes)) = bytes := by
        rw [← List.append_right_inj rest]
        nth_rewrite 1 [hu]
        exact List.take_append_drop _ _
      simp [hn, hd, ← hu]

theorem splits_iff {ps : List Piece} : Splits bytes ps ↔ ps = pieces bytes := by
  constructor
  case mpr =>
    rintro rfl
    exact splits_pieces bytes
  case mp =>
    intro h
    induction h
    case nil             => simp [pieces]
    case character hi    => rw [pieces_encode_append, hi]
    case illFormed h _ hi => rw [h.pieces_append, hi]

-- A character has four bytes at most.
theorem length_le_three (h : part <+: encode c) (hc : part ≠ encode c) : part.length ≤ 3 := by
  have hs := length_encode c ▸ c.utf8Size_le_four
  have hn : part.length ≠ (encode c).length := fun hl => hc (h.eq_of_length hl)
  have := h.length_le
  omega

theorem MaximalSubpart.length_le_three (h : MaximalSubpart part bytes) : part.length ≤ 3 := by
  rcases h.begins with ⟨c, hc⟩ | hl
  case inl => exact Utf8.length_le_three hc fun he => h.invalid c (he ▸ h.starts)
  case inr => omega

end Scan

def Piece.char : Piece → Char
  | character c => c
  | illFormed _ => '�'

-- How many more bytes the replacement character has than what it stands for.
def Piece.growth : Piece → Nat
  | character _    => 0
  | illFormed part => 3 - part.length

-- `String::from_utf8_lossy`
def fromUtf8Lossy (bytes : List UInt8) : String :=
  String.ofList ((pieces bytes).map Piece.char)

def growth (bytes : List UInt8) : Nat :=
  (pieces bytes |>.map Piece.growth).sum

theorem Splits.growth_eq {bytes : List UInt8} {ps : List Piece} (h : Splits bytes ps) :
    growth bytes = (ps.map Piece.growth).sum := by
  rw [growth, splits_iff.mp h]

-- Each byte that begins no character grows to the three bytes of the replacement character.
theorem growth_replicate {b : UInt8} (h : ranges b = none) (n : Nat) :
    growth (List.replicate n b) = 2 * n := by
  rw [growth]
  induction n
  case zero => simp [pieces]
  case succ n hi =>
    rw [List.replicate_succ, pieces, h]
    simp only [List.map_cons, List.sum_cons, hi, Piece.growth, List.length_singleton]
    omega

theorem utf8ByteSize_fromUtf8Lossy (bytes : List UInt8) :
    (fromUtf8Lossy bytes).utf8ByteSize = bytes.length + growth bytes := by
  rw [fromUtf8Lossy, String.utf8ByteSize_ofList, growth]
  have h := splits_pieces bytes
  generalize pieces bytes = ps at h
  induction h
  case nil => rfl
  case character c bytes ps _ hi =>
    simp only [List.map_cons, String.utf8Len_cons, Piece.char, hi, List.length_append,
      Piece.growth, List.sum_cons, length_encode]
    omega
  case illFormed part bytes ps h _ hi =>
    have hl := h.length_le_three
    have hs : ('�' : Char).utf8Size = 3 := by decide
    simp only [List.map_cons, String.utf8Len_cons, Piece.char, hi, List.length_append,
      Piece.growth, List.sum_cons, hs]
    omega

end Utf8
