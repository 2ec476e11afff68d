import TaskScheduler.Core.Json
import TaskScheduler.Library.Fallible

namespace Scheduler

-- The whitespace of JSON.
def isJsonSpace (c : Char) : Bool :=
  c = ' ' || c = '\t' || c = '\n' || c = '\r'

-- A JSON library that reads one value from a text. Space around the value is skipped and no other
-- whitespace is. An object ends with its brace, after which there may only be space.
structure JsonReader where
  read     : (text : List Char) → Option Json
  empty    : ∀ {text}, text.all isJsonSpace → read text = none
  leading  : ∀ {space text}, space.all isJsonSpace → read (space ++ text) = read text
  trailing : ∀ {space text}, space.all isJsonSpace → read (text ++ space) = read text
  foreign  : ∀ {c rest}, isWhitespace c → !isJsonSpace c → read (c :: rest) = none
  single   : ∀ {text rest members}, read text = some (.object members) → !rest.all isJsonSpace →
    read (text ++ rest) = none

namespace StaticCollection

def stripReturn (line : List Char) : List Char :=
  if line.getLast? = some '\r' then line.dropLast else line

-- `str::lines` for what is between the line feeds.
def linesOf : (segments : List (List Char)) → List (List Char)
  | []                            => []
  | [last]                        => if last = [] then [] else [last]
  | segment :: segment' :: segments => stripReturn segment :: linesOf (segment' :: segments)

def lines (document : List Char) : List (List Char) :=
  linesOf (document.splitOn '\n')

def isBlankLine (line : List Char) : Bool :=
  line.all isWhitespace

def readLine (reader : JsonReader) (line : List Char) : Except String Json :=
  match reader.read line with
  | none      => .error "collection_ndjson_line_invalid"
  | some item => .ok item

-- The document is `none` if its bytes are no UTF-8 text.
def parseStaticCollection (reader : JsonReader) (document : Option (List Char)) :
    Except String (List Json) :=
  match document.bind reader.read with
  | some (.array items)    => .ok items
  | some (.object members) =>
    match members.lookup "items" with
    | some (.array items) => .ok items
    | _                   => .error "collection_document_invalid"
  | some _                 => .error "collection_document_invalid"
  | none                   =>
    match document with
    | none      => .error "collection_document_invalid"
    | some text => do
      let items ← ((lines text).filter (!isBlankLine ·)).mapM (readLine reader)
      if items.isEmpty && !text.all isWhitespace then
        .error "collection_document_invalid"
      else
        .ok items

-- Every line that is not blank is the text of one item.
def IsNdjson (reader : JsonReader) (items : List Json) (text : List Char) : Prop :=
  List.Forall₂ (fun line item => reader.read line = some item)
    ((lines text).filter (!isBlankLine ·)) items

-- The blank lines of the text hold no other whitespace than JSON has.
def IsPlain (text : List Char) : Prop :=
  ∀ line ∈ lines text, isBlankLine line → line.all isJsonSpace

variable {reader : JsonReader} {text space : List Char} {items : List Json}

theorem isWhitespace_of_isJsonSpace {c : Char} (h : isJsonSpace c) : isWhitespace c := by
  simp only [isJsonSpace, Bool.or_eq_true, decide_eq_true_eq] at h
  rcases h with ((h | h) | h) | h <;> rw [h] <;> decide

theorem exists_stripReturn (line : List Char) :
    ∃ ending, line = stripReturn line ++ ending ∧ ending.all isJsonSpace := by
  unfold stripReturn
  split
  case isTrue h => exact ⟨['\r'], by rw [List.dropLast_append_getLast? '\r' h], by decide⟩
  case isFalse => exact ⟨[], by simp, rfl⟩

theorem isBlankLine_of_space (h : space.all isJsonSpace) : isBlankLine space :=
  List.all_eq_true.mpr fun c hc => isWhitespace_of_isJsonSpace (List.all_eq_true.mp h c hc)

-- A text is made of its lines and of the ends of lines between them.
theorem exists_pieces (text : List Char) : ∃ pieces : List (List Char × List Char),
    lines text = pieces.map Prod.fst ∧ text = pieces.flatMap (fun p => p.1 ++ p.2) ∧
      ∀ p ∈ pieces, p.2.all isJsonSpace := by
  have hj : ['\n'].intercalate (text.splitOn '\n') = text := List.intercalate_splitOn '\n'
  unfold lines
  generalize text.splitOn '\n' = segments at hj
  induction segments using linesOf.induct generalizing text
  case case1 => exact ⟨[], rfl, hj.symm, nofun⟩
  case case2 => exact ⟨[], rfl, hj.symm, nofun⟩
  case case3 last hl =>
    refine ⟨[(last, [])], by simp [linesOf, hl], ?_, by simp⟩
    simp [← hj]
  case case4 segment segment' segments hi =>
    have ⟨pieces, hl, ht, he⟩ := hi (['\n'].intercalate (segment' :: segments)) rfl
    have ⟨ending, hs, hn⟩ := exists_stripReturn segment
    refine ⟨(stripReturn segment, ending ++ ['\n']) :: pieces, ?_, ?_, ?_⟩
    case refine_1 => rw [linesOf, hl, List.map_cons]
    case refine_2 =>
      rw [← hj, List.intercalate_cons_cons, List.flatMap_cons, ← ht]
      nth_rewrite 1 [hs]
      simp
    case refine_3 =>
      refine List.forall_mem_cons.mpr ⟨?_, he⟩
      simpa using ⟨by simpa using hn, by decide⟩

-- Other whitespace than JSON has ends the reading.
theorem read_whitespace_append (h : space.all isWhitespace) : reader.read (space ++ text) =
    if space.all isJsonSpace then reader.read text else none := by
  split
  case isTrue hs => exact reader.leading hs
  case isFalse hs =>
    induction space
    case nil => contradiction
    case cons c space hi =>
      have ⟨hc, h⟩ : isWhitespace c ∧ space.all isWhitespace := by simpa using h
      by_cases hj : isJsonSpace c
      case pos =>
        have hl : reader.read ([c] ++ (space ++ text)) = reader.read (space ++ text) :=
          reader.leading (by simpa using hj)
        refine hl.trans <| hi h fun ha => hs ?_
        rw [List.all_cons, hj, ha]
        rfl
      case neg => exact reader.foreign hc (by simpa using hj)

theorem read_append {rest : List Char} {members : List (String × Json)}
    (h : reader.read text = some (.object members)) : reader.read (text ++ rest) =
      if rest.all isJsonSpace then some (.object members) else none := by
  split
  case isTrue hr => rw [reader.trailing hr, h]
  case isFalse hr => exact reader.single h (by simpa using hr)

theorem read_of_blank (h : text.all isWhitespace) : reader.read text = none := by
  have hr : reader.read (text ++ []) = _ := read_whitespace_append h
  rw [List.append_nil] at hr
  rw [hr, reader.empty rfl, ite_self]

theorem forall_mem_around {α : Type} {p : α → Prop} {a : α} {l₁ l₂ : List α} :
    (∀ b ∈ l₁ ++ a :: l₂, p b) ↔ (∀ b ∈ l₁, p b) ∧ p a ∧ ∀ b ∈ l₂, p b := by
  rw [List.forall_mem_append, List.forall_mem_cons]

theorem all_pieces {pieces : List (List Char × List Char)} {f : Char → Bool}
    (h : ∀ p ∈ pieces, p.2.all f) : (pieces.flatMap fun p => p.1 ++ p.2).all f =
      (pieces.map Prod.fst).all (·.all f) := by
  induction pieces
  case nil => rfl
  case cons p pieces hi =>
    have ⟨hp, h⟩ := List.forall_mem_cons.mp h
    rw [List.flatMap_cons, List.all_append, List.all_append, hi h, hp, Bool.and_true, List.map_cons,
      List.all_cons]

theorem isBlank_of_lines (h : (lines text).filter (!isBlankLine ·) = []) :
    text.all isWhitespace := by
  have ⟨pieces, hl, ht, he⟩ := exists_pieces text
  rw [ht, all_pieces fun p hm => isBlankLine_of_space (he p hm), ← hl, List.all_eq_true]
  intro line hm
  have hb : isBlankLine line := by simpa using List.filter_eq_nil_iff.mp h line hm
  exact hb

-- The text around the first line that is not blank.
theorem exists_around {line : List Char} {rest : List (List Char)}
    (h : (lines text).filter (!isBlankLine ·) = line :: rest) : ∃ before after,
    text = before ++ (line ++ after) ∧ before.all isWhitespace ∧
      (before.all isJsonSpace ∧ after.all isJsonSpace ↔ rest = [] ∧ IsPlain text) := by
  have ⟨pieces, hl, ht, he⟩ := exists_pieces text
  have ⟨l₁, l₂, hs, h₁, hb, h₂⟩ := List.filter_eq_cons_iff.mp h
  have ⟨p₁, q, hp, hp₁, hq⟩ := List.map_eq_append_iff.mp (hl.symm.trans hs)
  have ⟨p, p₂, hq, hpl, hp₂⟩ := List.map_eq_cons_iff.mp hq
  rw [hp, hq] at ht he
  have ⟨he₁, hep, he₂⟩ := forall_mem_around.mp he
  have hb₁ (line) (hm : line ∈ l₁) : isBlankLine line := by simpa using h₁ line hm
  refine ⟨p₁.flatMap fun p => p.1 ++ p.2, p.2 ++ p₂.flatMap fun p => p.1 ++ p.2, ?_, ?_, ?_⟩
  case refine_1 => simpa [← hpl] using ht
  case refine_2 =>
    rw [all_pieces fun p hm => isBlankLine_of_space (he₁ p hm), hp₁]
    exact List.all_eq_true.mpr hb₁
  case refine_3 =>
    rw [List.all_append, all_pieces he₁, all_pieces he₂, hp₁, hp₂, hep, Bool.true_and,
      List.all_eq_true, List.all_eq_true, ← h₂, List.filter_eq_nil_iff, IsPlain, hs,
      forall_mem_around]
    constructor
    case mp =>
      intro ⟨hj₁, hj₂⟩
      refine ⟨fun l hm => ?_, fun l hm _ => hj₁ l hm, fun hl => ?_, fun l hm _ => hj₂ l hm⟩
      case refine_1 => simp [isBlankLine_of_space (hj₂ l hm)]
      case refine_2 => simp [hl] at hb
    case mpr =>
      intro ⟨hf, hj₁, _, hj₂⟩
      exact ⟨fun l hm => hj₁ l hm (hb₁ l hm), fun l hm => hj₂ l hm (by simpa using hf l hm)⟩

theorem read_ndjson (h : IsNdjson reader items text) (ho : ∀ item ∈ items, item.isObject) :
    (items.length = 1 ∧ IsPlain text ∧ ∃ item, items = [item] ∧ reader.read text = some item) ∨
      (¬(items.length = 1 ∧ IsPlain text) ∧ reader.read text = none) := by
  unfold IsNdjson at h
  cases hf : (lines text).filter (!isBlankLine ·)
  case nil =>
    rw [hf] at h
    cases h
    exact .inr ⟨by simp, read_of_blank (isBlank_of_lines hf)⟩
  case cons line rest =>
    rw [hf] at h
    cases h
    case cons item items hr hrs =>
      obtain ⟨before, after, ht, hb, hj⟩ := exists_around hf
      obtain ⟨members, hm⟩ : ∃ members, item = .object members := by
        have hi := ho item List.mem_cons_self
        cases item <;> simp_all [Json.isObject]
      rw [hm] at hr
      have hread : reader.read text =
          if before.all isJsonSpace ∧ after.all isJsonSpace then some item else none := by
        nth_rewrite 1 [ht]
        rw [read_whitespace_append hb, read_append hr, hm, ite_and]
      rw [hread]
      split
      case isTrue h =>
        obtain ⟨hn, hp⟩ := hj.mp h
        rw [hn] at hrs
        cases hrs
        exact .inl ⟨rfl, hp, item, rfl, rfl⟩
      case isFalse h =>
        refine .inr ⟨?_, rfl⟩
        rintro ⟨hl, hp⟩
        refine h <| hj.mpr ⟨?_, hp⟩
        have hn : items = [] := by simpa using hl
        rw [hn] at hrs
        cases hrs
        rfl

theorem mapM_readLine {ls : List (List Char)}
    (h : List.Forall₂ (fun line item => reader.read line = some item) ls items) :
    ls.mapM (readLine reader) = .ok items := by
  induction h
  case nil => rfl
  case cons line item ls items hr _ hi =>
    simp [readLine, hr, hi, bind, Except.bind, pure, Except.pure]

theorem static_encodings_iff (reader : JsonReader) (items : List Json)
    (h : ∀ item ∈ items, item.isObject) (text : List Char) :
    (reader.read text = some (.array items) →
      parseStaticCollection reader (some text) = .ok items) ∧
    (∀ members, reader.read text = some (.object members) →
      members.lookup "items" = some (.array items) →
      parseStaticCollection reader (some text) = .ok items) ∧
    (IsNdjson reader items text →
      (parseStaticCollection reader (some text) = .ok items ↔
        ¬(items.length = 1 ∧ IsPlain text))) := by
  refine ⟨fun ha => ?_, fun members ho hm => ?_, fun hn => ?_⟩
  case refine_1 => simp [parseStaticCollection, ha]
  case refine_2 => simp [parseStaticCollection, ho, hm]
  case refine_3 =>
    cases read_ndjson hn h
    case inl hr =>
      have ⟨hl, hp, item, hi, hr⟩ := hr
      refine iff_of_false (fun he => ?_) (not_not.mpr ⟨hl, hp⟩)
      have ho := h item (by simp [hi])
      cases item <;> try contradiction
      case object members =>
        simp only [parseStaticCollection, Option.bind_some, hr] at he
        split at he
        case h_2 => contradiction
        case h_1 items' hm =>
          -- An object is no item of its own list.
          have hs := Json.sizeOf_lookup_lt hm
          cases he
          rw [hi] at hs
          simp at hs
          omega
    case inr hr =>
      have ⟨hc, hr⟩ := hr
      refine iff_of_true ?_ hc
      have hb : ¬(items.isEmpty && !text.all isWhitespace) = true := by
        cases items
        case nil => simp [isBlank_of_lines <| List.forall₂_nil_right_iff.mp hn]
        case cons => simp
      simp only [parseStaticCollection, Option.bind_some, hr, mapM_readLine hn, bind, Except.bind]
      exact if_neg hb

end StaticCollection

namespace Sample

-- It reads the empty object and nothing else.
def braces : JsonReader where
  read text := if text.filter (!isJsonSpace ·) = ['{', '}'] then some (.object []) else none
  empty {text} h := by
    have hf : text.filter (!isJsonSpace ·) = [] := by simpa using h
    simp [hf]
  leading {space text} h := by
    have hf : space.filter (!isJsonSpace ·) = [] := by simpa using h
    simp [hf]
  trailing {space text} h := by
    have hf : space.filter (!isJsonSpace ·) = [] := by simpa using h
    simp [hf]
  foreign {c rest} h hj := by
    have hc : c ≠ '{' := fun hc => by simp [hc, isWhitespace] at h
    have hf : (c :: rest).filter (!isJsonSpace ·) ≠ ['{', '}'] := by
      rw [List.filter_cons, if_pos hj]
      simp [hc]
    rw [if_neg hf]
  single {text rest members} h hr := by
    have ht : text.filter (!isJsonSpace ·) = ['{', '}'] := by
      by_contra ht
      simp [ht] at h
    have hf : rest.filter (!isJsonSpace ·) ≠ [] := by simpa using hr
    simp [ht, hf]

def oneObject : List Char := ['{', '}', '\n']

def twoObjects : List Char := ['{', '}', '\n', '\n', '{', '}', '\n']

end Sample

namespace StaticCollection

open Sample

theorem static_encodings_iff_two_lines :
    parseStaticCollection braces (some twoObjects) = .ok [.object [], .object []] := by
  refine ((static_encodings_iff braces [.object [], .object []] (by simp [Json.isObject])
    twoObjects).2.2 ?_).mpr (by simp)
  have hl : (lines twoObjects).filter (!isBlankLine ·) = [['{', '}'], ['{', '}']] := by decide
  rw [IsNdjson, hl]
  exact .cons rfl <| .cons rfl .nil

-- One line is a JSON document of its own.
theorem single_line_rejected : IsNdjson braces [.object []] oneObject ∧
    parseStaticCollection braces (some oneObject) = .error "collection_document_invalid" := by
  have hl : (lines oneObject).filter (!isBlankLine ·) = [['{', '}']] := by decide
  refine ⟨?_, rfl⟩
  rw [IsNdjson, hl]
  exact .cons rfl .nil

end StaticCollection

end Scheduler
