import JsonSelection.DotPath
import Mathlib.Data.List.Infix

/-!
# Laws of dot paths

A dot path is a list of steps, and a text is read as one. There are two laws,
one for following paths and one for their texts.

## What this module delivers

- `DotPath.select_append`: what a path leads to can be found in two steps. The
  path is split anywhere, and the second part is followed under as many arrays
  as the first part enters.
- `DotPath.parse_render_iff`: a path is read back from what it is written as
  exactly if its keys can stand in a text (`Segment.Writable`), which they do in
  every path that was read.

Neither law has a hypothesis on the data or on the text. A path that does not
fit its data leads to `null`, in the parts as in the whole; a text with stray
points or brackets has steps as any other text, and is only not the one that its
steps are written as.
-/

set_option autoImplicit false

namespace JsonSelection

namespace DotPath

/-! ### Paths in two parts

The first part turns one value into a nest of arrays, as deep as the number of
its steps into elements. The second part is applied under these arrays, and
`null` passes through all of them. -/

/-- Applies a function under a number of arrays in each other. What is no array
where one is needed gives `null`. -/
def lift (f : Json → Json) : Nat → Json → Json
  | 0, value => f value
  | depth + 1, .arr items => .arr (items.map (lift f depth))
  | _ + 1, _ => .null

/-- The number of arrays that a path enters. What it leads to is nested in so
many arrays at least, if nothing on the way is missing. -/
def levels (path : List Segment) : Nat :=
  path.count .each

/-- No path leads out of `null`. -/
theorem select_null (path : List Segment) : select path .null = .null := by
  cases path with
  | nil => rfl
  | cons segment rest => cases segment <;> rfl

theorem lift_null {f : Json → Json} (h : f .null = .null) (depth : Nat) :
    lift f depth .null = .null := by
  cases depth with
  | zero => exact h
  | succ depth => rfl

theorem select_key (name : String) (rest : List Segment) (value : Json) :
    select (.key name :: rest) value = ((value.member? name).map (select rest)).getD .null := by
  rw [select]
  cases value.member? name <;> rfl

theorem select_each_of_not_array {value : Json} (h : ∀ items, value ≠ .arr items)
    (rest : List Segment) :
    select (.each :: rest) value = .null := by
  rw [select]
  exact h

/-- A path is followed in two steps: its second part under as many arrays as its
first part enters. Where the first part does not fit the data it leaves `null`,
and so does the whole. -/
theorem select_append (first second : List Segment) (value : Json) :
    select (first ++ second) value = lift (select second) (levels first) (select first value) := by
  -- the first part leads from a value to others, so the value is any
  induction first generalizing value with
  | nil => rfl
  | cons segment rest ih =>
      have hnull : lift (select second) (levels rest) .null = .null :=
        lift_null (select_null second) _
      rw [List.cons_append]
      cases segment with
      | key name =>
          have hlevels : levels (.key name :: rest) = levels rest :=
            List.count_cons_of_ne (by simp)
          rw [hlevels, select_key, select_key]
          cases value.member? name with
          | none => exact hnull.symm
          | some child => exact ih child
      | each =>
          have hlevels : levels (.each :: rest) = levels rest + 1 := List.count_cons_self
          rw [hlevels]
          by_cases harray : ∃ items, value = .arr items
          · obtain ⟨items, rfl⟩ := harray
            simp only [select, lift, List.map_map, Json.arr.injEq, List.map_inj_left,
              Function.comp_apply]
            exact fun item _ => ih item
          · have hother : ∀ items, value ≠ .arr items :=
              fun items heq => harray ⟨items, heq⟩
            rw [select_each_of_not_array hother, select_each_of_not_array hother]
            rfl

/-! ### Keys that can stand in a text -/

/-- A key that a text can hold: it is not empty, and neither a point nor an
empty pair of brackets is in it. -/
def IsKey (name : List Char) : Prop :=
  name ≠ [] ∧ '.' ∉ name ∧ ¬ ['[', ']'] <:+: name

/-- A step that a text can hold. A key must not be empty, and must hold neither
a point nor an empty pair of brackets. -/
def Segment.Writable : Segment → Prop
  | .each => True
  | .key name => IsKey name.toList

theorem flush_of_ne_nil {current : List Char} (h : current ≠ []) :
    flush current = [.key (String.ofList current)] := by
  rw [flush, if_neg (by simpa using h)]

theorem parseFrom_nil (current : List Char) : parseFrom current [] = flush current := by
  rw [parseFrom]

theorem parseFrom_brackets (current rest : List Char) :
    parseFrom current ('[' :: ']' :: rest) = flush current ++ .each :: parseFrom [] rest := by
  rw [parseFrom]

theorem parseFrom_point (current rest : List Char) :
    parseFrom current ('.' :: rest) = flush current ++ parseFrom [] rest := by
  rw [parseFrom]

/-- A character that is no point and starts no empty pair of brackets belongs to
the key. -/
theorem parseFrom_char {c : Char} {rest : List Char} (hpoint : c ≠ '.')
    (hbrackets : ∀ tail, c :: rest ≠ '[' :: ']' :: tail) (current : List Char) :
    parseFrom current (c :: rest) = parseFrom (current ++ [c]) rest := by
  rw [parseFrom]
  · exact fun tail hc hrest => hbrackets tail (by rw [hc, hrest])
  · exact hpoint

/-! ### Written paths are read back

The reader collects a key character by character and ends it at a point, at a
pair of brackets, or at the end of the text. What is written behind a key starts
with one of these, and never with a bracket that would close a pair with the
key. -/

/-- A key is read as a whole, if no closing bracket follows that could make a
pair with its last character. -/
theorem parseFrom_key {name rest : List Char} (hpoint : '.' ∉ name)
    (hbrackets : ¬ ['[', ']'] <:+: name) (hrest : ∀ tail, rest ≠ ']' :: tail)
      (current : List Char) :
    parseFrom current (name ++ rest) = parseFrom (current ++ name) rest := by
  induction name generalizing current with
  | nil => rw [List.nil_append, List.append_nil]
  | cons c others ih =>
      obtain ⟨hc, hothers⟩ := not_or.mp (mt List.mem_cons.mpr hpoint)
      have hinside : ¬ ['[', ']'] <:+: others := fun h => hbrackets (List.infix_cons h)
      rw [List.cons_append, parseFrom_char (Ne.symm hc), ih hothers hinside, List.append_assoc,
        List.singleton_append]
      rintro tail heq
      obtain ⟨rfl, hnext⟩ := List.cons.inj heq
      cases others with
      | nil => exact hrest tail hnext
      | cons d more =>
          obtain ⟨rfl, -⟩ := List.cons.inj hnext
          exact hbrackets (List.prefix_append ['[', ']'] more).isInfix

/-- Steps that follow another one do not start with a closing bracket. -/
theorem renderRest_ne (segments : List Segment) (tail : List Char) :
    renderRest segments ≠ ']' :: tail := by
  cases segments with
  | nil =>
      intro h
      cases h
  | cons segment rest =>
      intro h
      cases segment with
      | each => exact absurd (List.cons.inj h).1 (by decide)
      | key name => exact absurd (List.cons.inj h).1 (by decide)

/-- Steps behind a key end the key and are read back. -/
theorem parseFrom_renderRest {segments : List Segment}
    (h : ∀ segment ∈ segments, segment.Writable) (current : List Char) :
    parseFrom current (renderRest segments) = flush current ++ segments := by
  induction segments generalizing current with
  | nil => rw [renderRest, parseFrom_nil, List.append_nil]
  | cons segment rest ih =>
      have hrest := ih fun other hmem => h other (List.mem_cons_of_mem segment hmem)
      have hsegment := h segment List.mem_cons_self
      -- brackets close the key at hand; a point closes it and opens another one
      cases segment with
      | each =>
          rw [renderRest, parseFrom_brackets, hrest]
          rfl
      | key name =>
          obtain ⟨hne, hpoint, hbrackets⟩ := hsegment
          rw [renderRest, List.cons_append, parseFrom_point,
            parseFrom_key hpoint hbrackets (renderRest_ne rest), List.nil_append, hrest,
            flush_of_ne_nil hne,
            String.ofList_toList, List.singleton_append]

theorem parse_render {segments : List Segment} (h : ∀ segment ∈ segments, segment.Writable) :
    parse (render segments) = segments := by
  cases segments with
  | nil => rfl
  | cons first rest =>
      have hrest : ∀ segment ∈ rest, segment.Writable := fun other hmem =>
        h other (List.mem_cons_of_mem first hmem)
      have hfirst := h first List.mem_cons_self
      rw [parse, render, String.toList_ofList]
      cases first with
      | each =>
          have htext : (Segment.text .each).toList = ['[', ']'] := rfl
          rw [htext, List.cons_append, List.singleton_append, parseFrom_brackets,
            parseFrom_renderRest hrest]
          rfl
      | key name =>
          obtain ⟨hne, hpoint, hbrackets⟩ := hfirst
          rw [Segment.text, parseFrom_key hpoint hbrackets (renderRest_ne rest), List.nil_append,
            parseFrom_renderRest hrest, flush_of_ne_nil hne, String.ofList_toList,
            List.singleton_append]

/-! ### What is read can be written

The invariant is about the characters that have been collected and about the
text that is left, since a pair of brackets could begin in the one and end in
the other. -/

/-- What holds of the characters of a key so far: neither a point nor an empty
pair of brackets is among them, and what is still to be read makes no such pair
with the last of them. -/
structure Begun (current rest : List Char) : Prop where
  noPoint : '.' ∉ current
  noBrackets : ¬ ['[', ']'] <:+: current
  noPair : ∀ front tail, current = front ++ ['['] → rest ≠ ']' :: tail

theorem begun_nil (rest : List Char) : Begun [] rest where
  noPoint := List.not_mem_nil
  noBrackets := by simp
  noPair := fun front _ h => absurd h.symm
    (List.append_ne_nil_of_right_ne_nil front (List.cons_ne_nil _ _))

/-- A further character of a key keeps what holds of the ones before it. -/
theorem Begun.push {current rest : List Char} {c : Char} (h : Begun current (c :: rest))
    (hpoint : c ≠ '.') (hbrackets : ∀ tail, c :: rest ≠ '[' :: ']' :: tail) :
    Begun (current ++ [c]) rest where
  noPoint := by
    rw [List.mem_append, List.mem_singleton, not_or]
    exact ⟨h.noPoint, Ne.symm hpoint⟩
  noBrackets := by
    intro hinfix
    rcases List.infix_concat_iff.mp hinfix with hsuffix | hinfix
    · -- a pair at the end closes a bracket that was open before
      rcases List.suffix_concat_iff.mp hsuffix with hnil | ⟨front, hpair, ⟨before, hbefore⟩⟩
      · cases hnil
      · obtain ⟨rfl, hc⟩ := List.append_inj' (show ['['] ++ [']'] = front ++ [c] from hpair)
          rfl
        obtain ⟨rfl, -⟩ := List.cons.inj hc
        exact h.noPair before rest hbefore.symm rfl
    · exact h.noBrackets hinfix
  noPair := by
    rintro front tail heq rfl
    obtain ⟨-, hc⟩ := List.append_inj' heq rfl
    obtain ⟨rfl, -⟩ := List.cons.inj hc
    exact hbrackets tail rfl

theorem writable_flush {current rest : List Char} (h : Begun current rest) :
    ∀ segment ∈ flush current, segment.Writable := by
  by_cases hne : current = []
  · subst hne
    simp [flush]
  · rw [flush_of_ne_nil hne]
    intro segment hmem
    obtain rfl := List.mem_singleton.mp hmem
    rw [Segment.Writable, String.toList_ofList]
    exact ⟨hne, h.noPoint, h.noBrackets⟩

/-- Every step that is read can be written. -/
theorem writable_parseFrom {current cs : List Char} (h : Begun current cs) :
    ∀ segment ∈ parseFrom current cs, segment.Writable := by
  -- along the reader; what holds of the key so far is the invariant
  fun_induction parseFrom current cs with
  | case1 current => exact writable_flush h
  | case2 current rest ih =>
      intro segment hmem
      rcases List.mem_append.mp hmem with hmem | hmem
      · exact writable_flush h segment hmem
      rcases List.mem_cons.mp hmem with rfl | hmem
      · trivial
      · exact ih (begun_nil rest) segment hmem
  | case3 current rest ih =>
      intro segment hmem
      rcases List.mem_append.mp hmem with hmem | hmem
      · exact writable_flush h segment hmem
      · exact ih (begun_nil rest) segment hmem
  | case4 current c rest hbrackets hpoint ih =>
      refine ih (h.push hpoint fun tail heq => ?_)
      obtain ⟨hc, hrest⟩ := List.cons.inj heq
      exact hbrackets tail hc hrest

/-- A path is what its text is read as exactly if its steps can be written: the
keys are not empty, and neither a point nor an empty pair of brackets is in
them. The steps of every text can be written, so to write them and to read them
again changes nothing. -/
theorem parse_render_iff :
    (∀ segments : List Segment,
      parse (render segments) = segments ↔ ∀ segment ∈ segments, segment.Writable) ∧
    ∀ text : String, (∀ segment ∈ parse text, segment.Writable) ∧
      parse (render (parse text)) = parse text := by
  have hwritable : ∀ text : String, ∀ segment ∈ parse text, segment.Writable := fun text =>
    writable_parseFrom (begun_nil text.toList)
  refine ⟨fun segments => ⟨fun h => ?_, parse_render⟩, fun text =>
    ⟨hwritable text, parse_render (hwritable text)⟩⟩
  rw [← h]
  exact hwritable (render segments)

/-- Brackets that make no pair belong to keys, and further points are passed over. -/
example : parse "..a[.[[]][].]" = [.key "a[", .key "[", .each, .key "]", .each, .key "]"] := by
  decide

end DotPath

end JsonSelection
