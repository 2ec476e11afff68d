import TaskScheduler.Library.Text
import TaskScheduler.Core.Json

namespace Scheduler

namespace Template

-- A placeholder is opened by two braces and `params.`, and closed by two braces.
def opening : List Char := "\x7b\x7bparams.".toList
def closing : List Char := "\x7d\x7d".toList

def trim (text : List Char) : List Char :=
  Text.trim isWhitespace text

-- The names that a path is made of.
def components (path : List Char) : List String :=
  (path.splitOn '.').map String.ofList

def descend (value : Json) (names : List String) : Option Json :=
  names.foldlM Json.get? value

def lookup (parameters : Json) (path : List Char) : Except String Json :=
  match descend parameters (components path) with
  | none       => .error s!"missing parameter {String.ofList path}"
  | some value => .ok value

-- The text of a scalar.
def scalar? : Json → Option (List Char)
  | .string text => some text.toList
  | .number text => some text.toList
  | .bool value  => some (if value then "true".toList else "false".toList)
  | .null        => some []
  | .array _     => none
  | .object _    => none

-- The loop of `render_string`.
def render (parameters : Json) (output rest : List Char) : Except String (List Char) :=
  match h : Text.split? opening rest with
  | none                      => .ok (output ++ rest)
  | some (before, expression) =>
    match h' : Text.split? closing expression with
    | none             => .error "unterminated parameter placeholder"
    | some (path, rest') =>
      match lookup parameters (trim path) with
      | .error message => .error message
      | .ok value      =>
        match scalar? value with
        | none      => .error s!"embedded parameter {String.ofList (trim path)} must be a scalar"
        | some text =>
          have : rest'.length < rest.length :=
            (Text.length_lt_of_split? (by decide) h').trans (Text.length_lt_of_split? (by decide) h)
          render parameters (output ++ before ++ text) rest'
termination_by rest.length

def renderString (template : String) (parameters : Json) : Except String String :=
  (render parameters [] template.toList).map String.ofList

def exactPlaceholder (template : List Char) : Option (List Char) :=
  (Text.between? opening closing template).map trim

def renderValue (value parameters : Json) : Except String Json :=
  match value with
  | .string template =>
    match exactPlaceholder template.toList with
    | some path => lookup parameters path
    | none      => (renderString template parameters).map .string
  | value => .ok value

-- A template is read from left to right. A placeholder ends with the first braces after its start.
inductive Segment
  | literal (text : List Char)
  | placeholder (path : List Char)
  | unterminated (expression : List Char)
  deriving DecidableEq, Repr

def Segment.literals (text : List Char) : List Segment :=
  if text = [] then [] else [literal text]

def segments (template : List Char) : List Segment :=
  match h : Text.split? opening template with
  | none                      => Segment.literals template
  | some (before, expression) =>
    match h' : Text.split? closing expression with
    | none              => Segment.literals before ++ [.unterminated expression]
    | some (path, rest) =>
      have : rest.length < template.length :=
        (Text.length_lt_of_split? (by decide) h').trans (Text.length_lt_of_split? (by decide) h)
      Segment.literals before ++ .placeholder path :: segments rest
termination_by template.length

-- What a segment stands for. Looked-up text is not read again.
def Segment.text (parameters : Json) : Segment → Option (List Char)
  | literal text     => some text
  | placeholder path => (descend parameters (components (trim path))).bind scalar?
  | unterminated _   => none

def Segment.concat (parameters : Json) : List Segment → Option (List Char)
  | []                  => some []
  | segment :: segments =>
    (segment.text parameters).bind fun text => (concat parameters segments).map (text ++ ·)

-- The reference for `render_string`.
def rendering (template : List Char) (parameters : Json) : Option (List Char) :=
  Segment.concat parameters (segments template)

-- The reference for `render_value`.
def renderedValue (template : List Char) (parameters : Json) : Option Json :=
  match segments template with
  | [.placeholder path] => descend parameters (components (trim path))
  | _ => (rendering template parameters).map fun text => .string (String.ofList text)

variable {parameters : Json} {template output rest before path expression text : List Char}

theorem concat_literals {l : List Segment} :
    Segment.concat parameters (Segment.literals text ++ l) =
      (Segment.concat parameters l).map (text ++ ·) := by
  unfold Segment.literals
  split
  case isTrue h => simp [h]
  case isFalse => rfl

theorem segments_of_none (h : Text.split? opening template = none) :
    segments template = Segment.literals template := by
  rw [segments]
  split
  case h_1 => rfl
  case h_2 hs => exact nomatch h.symm.trans hs

theorem segments_of_unterminated (h : Text.split? opening template = some (before, expression))
    (h' : Text.split? closing expression = none) :
    segments template = Segment.literals before ++ [.unterminated expression] := by
  rw [segments]
  split
  case h_1 hs => exact nomatch h.symm.trans hs
  case h_2 hs =>
    cases h.symm.trans hs
    split
    case h_1 => rfl
    case h_2 hs => exact nomatch h'.symm.trans hs

theorem segments_of_placeholder (h : Text.split? opening template = some (before, expression))
    (h' : Text.split? closing expression = some (path, rest)) :
    segments template = Segment.literals before ++ .placeholder path :: segments rest := by
  rw [segments]
  split
  case h_1 hs => exact nomatch h.symm.trans hs
  case h_2 hs =>
    cases h.symm.trans hs
    split
    case h_1 hs => exact nomatch h'.symm.trans hs
    case h_2 hs =>
      cases h'.symm.trans hs
      rfl

theorem lookup_toOption :
    (lookup parameters path).toOption = descend parameters (components path) := by
  unfold lookup
  cases descend parameters (components path) <;> rfl

-- The loop is a single pass over the segments, whose texts are added to the output.
theorem render_toOption : (render parameters output rest).toOption =
    (rendering rest parameters).map (output ++ ·) := by
  have hx {path : List Char} {r : Except String Json} (h : lookup parameters path = r) :
      descend parameters (components path) = r.toOption := by rw [← lookup_toOption, h]
  fun_induction render parameters output rest
  case case1 output rest h =>
    have hc : Segment.concat parameters (Segment.literals rest ++ []) = some rest := by
      rw [concat_literals]
      simp [Segment.concat]
    rw [rendering, segments_of_none h, ← List.append_nil (Segment.literals rest), hc]
    rfl
  case case2 h h' =>
    rw [rendering, segments_of_unterminated h h', concat_literals]
    rfl
  case case3 h _ _ h' message hl =>
    rw [rendering, segments_of_placeholder h h', concat_literals]
    simp [Segment.concat, Segment.text, hx hl, Except.toOption]
  case case4 h _ _ h' value hl hs =>
    rw [rendering, segments_of_placeholder h h', concat_literals]
    simp [Segment.concat, Segment.text, hx hl, hs, Except.toOption]
  case case5 h _ _ h' value hl text hs _ hi =>
    rw [rendering, segments_of_placeholder h h', concat_literals, hi]
    simp [Segment.concat, Segment.text, hx hl, hs, Except.toOption, rendering]
    rfl

theorem renderString_toOption {template : String} : (renderString template parameters).toOption =
    (rendering template.toList parameters).map String.ofList := by
  have h : (render parameters [] template.toList).toOption =
      (rendering template.toList parameters).map ([] ++ ·) := render_toOption
  simp only [List.nil_append, Option.map_id'] at h
  rw [renderString, ← h]
  cases render parameters [] template.toList <;> rfl

theorem toOption_map {α β ε : Type} {r : Except ε α} {f : α → β} :
    (r.map f).toOption = r.toOption.map f := by
  cases r <;> rfl

-- The template begins like a placeholder and ends like one, but the braces that end the first
-- placeholder are not the last ones.
def Overreaches (template : List Char) : Prop :=
  ∃ inner path rest, template = opening ++ inner ++ closing ∧
    Text.split? closing (inner ++ closing) = some (path, rest) ∧ rest ≠ []

theorem segments_nil : segments [] = [] :=
  segments_of_none <| by decide

theorem segments_ne_nil (h : template ≠ []) : segments template ≠ [] := by
  rw [segments]
  split
  case h_1 => simp [Segment.literals, h]
  case h_2 =>
    split <;> simp

theorem exactPlaceholder_eq_some {inner : List Char} (h : template = opening ++ inner ++ closing) :
    exactPlaceholder template = some (trim inner) := by
  rw [exactPlaceholder, Text.between?_eq_some.mpr h]
  rfl

theorem segments_delimited {inner : List Char}
    (h : Text.split? closing (inner ++ closing) = some (path, rest)) :
    segments (opening ++ inner ++ closing) = .placeholder path :: segments rest := by
  rw [List.append_assoc]
  exact segments_of_placeholder (Text.split?_append (by decide)) h

theorem renderedValue_of_segments (h : ∀ path, segments template ≠ [.placeholder path]) :
    renderedValue template parameters =
      (rendering template parameters).map fun text => .string (String.ofList text) := by
  unfold renderedValue
  split
  case h_1 path hs => exact absurd hs (h path)
  case h_2 => rfl

-- A template that is one placeholder is delimited by its braces.
theorem delimited_of_segments (h : segments template = [.placeholder path]) :
    template = opening ++ path ++ closing := by
  cases hs : Text.split? opening template
  case none =>
    rw [segments_of_none hs, Segment.literals] at h
    split at h <;> simp at h
  case some r =>
    have ⟨before, expression⟩ := r
    cases hs' : Text.split? closing expression
    case none =>
      rw [segments_of_unterminated hs hs', Segment.literals] at h
      split at h <;> simp at h
    case some r =>
      have ⟨path', rest⟩ := r
      rw [segments_of_placeholder hs hs', Segment.literals] at h
      split at h
      case isFalse => simp at h
      case isTrue hb =>
        have ⟨hp, hn⟩ : path' = path ∧ segments rest = [] := by simpa using h
        have hr : rest = [] := by
          by_contra hr
          exact segments_ne_nil hr hn
        rw [Text.append_of_split? hs, Text.append_of_split? hs', hb, hp, hr]
        simp

-- The value at the end of a path of names.
def nest (value : Json) : List String → Json
  | []            => value
  | name :: names => .object [(name, nest value names)]

theorem descend_nest {value : Json} {names : List String} :
    descend (nest value names) names = some value := by
  induction names
  case nil => rfl
  case cons name names hi => simpa [descend, nest, Json.get?] using hi

theorem renderValue_exact {template : String} {inner : List Char}
    (h : template.toList = opening ++ inner ++ closing) :
    (renderValue (.string template) parameters).toOption =
      descend parameters (components (trim inner)) := by
  rw [renderValue, exactPlaceholder_eq_some h]
  exact lookup_toOption

theorem render_value_single_pass_iff (template : String) :
    (∀ parameters, (renderString template parameters).toOption =
      (rendering template.toList parameters).map String.ofList) ∧
    ((∀ parameters, (renderValue (.string template) parameters).toOption =
      renderedValue template.toList parameters) ↔ ¬Overreaches template.toList) := by
  refine ⟨fun parameters => renderString_toOption, ?_⟩
  constructor
  case mp =>
    -- The parameters of the whole text between the braces are a value that is no text.
    rintro h ⟨inner, path, rest, ht, hs, hr⟩
    have hx := h (nest .null (components (trim inner)))
    have hn (p : List Char) : segments template.toList ≠ [.placeholder p] := by
      rw [ht, segments_delimited hs]
      simp [segments_ne_nil hr]
    rw [renderValue_exact ht, descend_nest, renderedValue_of_segments hn] at hx
    have ⟨_, _, he⟩ := Option.map_eq_some_iff.mp hx.symm
    contradiction
  case mpr =>
    intro h parameters
    cases hb : Text.between? opening closing template.toList
    case none =>
      have hn (p : List Char) : segments template.toList ≠ [.placeholder p] := fun hs =>
        nomatch hb.symm.trans <| Text.between?_eq_some.mpr <| delimited_of_segments hs
      rw [renderedValue_of_segments hn, renderValue, exactPlaceholder, hb, Option.map_none]
      exact toOption_map.trans <| (congrArg _ renderString_toOption).trans <| Option.map_map ..
    case some inner =>
      have ht := Text.between?_eq_some.mp hb
      rw [renderValue_exact ht, ht]
      cases hs : Text.split? closing (inner ++ closing)
      case none =>
        exact absurd (List.suffix_append inner closing).isInfix (Text.split?_eq_none.mp hs)
      case some r =>
        have ⟨path, rest⟩ := r
        have hr : rest = [] := by
          by_contra hr
          exact h ⟨inner, path, rest, ht, hs, hr⟩
        have he : inner = path := by
          have he := Text.append_of_split? hs
          rw [hr, List.append_nil] at he
          exact List.append_cancel_right he
        have hx : segments (opening ++ inner ++ closing) = [.placeholder inner] := by
          rw [segments_delimited hs, hr, he, segments_nil]
        rw [renderedValue, hx]

end Template

namespace Sample

-- Two placeholders with a hyphen between them.
def range : String := "\x7b\x7bparams.first\x7d\x7d-\x7b\x7bparams.last\x7d\x7d"

def ends : Json := .object [("first", .number "1"), ("last", .number "9")]

end Sample

namespace Template

open Sample

-- The argument of a command is rendered, the one of a macro is not.
theorem range_not_rendered : (renderString range ends).toOption = some "1-9" ∧
    renderedValue range.toList ends = some (.string "1-9") ∧
    (renderValue (.string range) ends).toOption = none := by
  have hs : segments range.toList =
    [.placeholder "first".toList, .literal "-".toList, .placeholder "last".toList] := by
      decide +kernel
  have hr : rendering range.toList ends = some "1-9".toList := by decide +kernel
  refine ⟨by decide +kernel, ?_, Option.isNone_iff_eq_none.mp <| by decide +kernel⟩
  rw [renderedValue_of_segments <| by simp [hs], hr]
  rfl

end Template

end Scheduler
