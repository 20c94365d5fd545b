import JsonSelection.CommandLine.Tool
import JsonSelection.Proofs.CommandLine.Options
import JsonSelection.Proofs.Outcome

/-!
# The entry on a window

A query of a window of an array adds an entry to its result exactly if the
window leaves elements out, and the budget does not touch that entry. The entry
tells whether elements follow the window.

## What this module delivers

- `Page.Cuts`: a list in three parts, the window in the middle. Every window
  cuts its list in this way (`Page.exists_cuts`).
- `Page.Overruns`: the windows about which the entry is wrong. They start at a
  place counted from the end of the array and stop, counted from its start, not
  before the end.
- `Page.Cuts.short_iff`: offset and window fall short of the list if elements
  follow the window, and besides only if the window overruns.
- `CommandLine.pageEntry_of_run`: what a whole run of the query program shows.

A window that overruns reaches the end of the array (`Cuts.after_eq_nil`), and
its entry tells of more. All statements are over all integers that the two
options take, of either sign.
-/

set_option autoImplicit false

namespace JsonSelection

/-! ### Windows

The places where a window starts and stops are those of `Slice`, so they may
each be counted from the start of the list or from its end. -/

namespace Slice

theorem place_of_nonneg {position : Int} (h : 0 ≤ position) (length : Nat) :
    place length position = min position.toNat length :=
  if_neg (Int.not_lt.mpr h)

theorem place_of_neg {position : Int} (h : position < 0) (length : Nat) :
    place length position = (length + position).toNat :=
  if_pos h

theorem place_le (length : Nat) (position : Int) : place length position ≤ length := by
  rcases Int.lt_or_le position 0 with h | h
  · rw [place_of_neg h]
    omega
  · rw [place_of_nonneg h]
    exact Nat.min_le_right _ _

end Slice

namespace Page

/-- A list in three parts: the elements of a window, those before it and those
behind it. -/
structure Cuts (items before kept after : List Json) (limit offset : Option Int) : Prop where
  whole : items = before ++ (kept ++ after)
  window : (take (.arr items) limit offset).data = .arr kept
  starts : before.length = Slice.place items.length (offset.getD 0)
  ends : before.length + kept.length = max (Slice.place items.length (offset.getD 0))
    (Slice.place items.length (offset.getD 0 + limit.getD defaultLength))

/-- The window starts at a place that is counted from the end of the list, and
stops at one that is counted from its start and not before the end. -/
def Overruns (items : List Json) (limit offset : Option Int) : Prop :=
  offset.getD 0 < 0 ∧ (items.length : Int) ≤ offset.getD 0 + limit.getD defaultLength

instance (items : List Json) (limit offset : Option Int) :
    Decidable (Overruns items limit offset) :=
  inferInstanceAs (Decidable (_ ∧ _))

/-- What the entry on a window of a list tells: the number of elements of the
list, where the window was asked to start, how long it was asked to be, and
whether there is more. -/
def note (items : List Json) (limit offset : Option Int) (more : Bool) : Json :=
  .obj [("total", .int items.length), ("offset", .int (offset.getD 0)),
    ("limit", .int (limit.getD defaultLength)), ("hasMore", .bool more)]

variable {items before kept after : List Json} {limit offset : Option Int}

theorem exists_cuts (items : List Json) (limit offset : Option Int) :
    ∃ before kept after, Cuts items before kept after limit offset := by
  generalize hstart : Slice.place items.length (offset.getD 0) = start
  generalize hstop : Slice.place items.length (offset.getD 0 + limit.getD defaultLength) = stop
  have hstartLe : start ≤ items.length := hstart ▸ Slice.place_le _ _
  have hstopLe : stop ≤ items.length := hstop ▸ Slice.place_le _ _
  have hkept : (items.take stop).drop start =
      Slice.between items (offset.getD 0) (offset.getD 0 + limit.getD defaultLength) := by
    rw [Slice.between, Slice.before, hstart, hstop]
  refine ⟨items.take start, (items.take stop).drop start, items.drop (max start stop),
    ?_, ?_, ?_, ?_⟩
  · rcases Nat.le_total start stop with hle | hle
    · have hfront : items.take start = (items.take stop).take start := by
        rw [List.take_take, Nat.min_eq_left hle]
      rw [Nat.max_eq_right hle, hfront, ← List.append_assoc, List.take_append_drop,
        List.take_append_drop]
    · -- a window that stops before it starts is empty
      have hnone : (items.take stop).drop start = [] := by
        apply List.drop_eq_nil_of_le
        rw [List.length_take]
        omega
      rw [Nat.max_eq_left hle, hnone, List.nil_append, List.take_append_drop]
  · rw [hkept]
    rfl
  · rw [hstart, List.length_take, Nat.min_eq_left hstartLe]
  · rw [hstart, hstop, List.length_drop, List.length_take, List.length_take,
      Nat.min_eq_left hstartLe,
      Nat.min_eq_left hstopLe]
    omega

theorem Cuts.length_eq (h : Cuts items before kept after limit offset) :
    items.length = before.length + kept.length + after.length := by
  conv => lhs; rw [h.whole]
  rw [List.length_append, List.length_append, Nat.add_assoc]

/-- Elements are left out if the window is not the whole list. -/
theorem Cuts.length_lt_iff (h : Cuts items before kept after limit offset) :
    kept.length < items.length ↔ kept ≠ items := by
  constructor
  · rintro hlt rfl
    exact Nat.lt_irrefl _ hlt
  · intro hne
    apply Nat.lt_of_le_of_ne
    · have hlength := h.length_eq
      omega
    · intro heq
      have hlength := h.length_eq
      have hbefore : before = [] := List.length_eq_zero_iff.mp (by omega)
      have hafter : after = [] := List.length_eq_zero_iff.mp (by omega)
      apply hne
      rw [h.whole, hbefore, hafter, List.nil_append, List.append_nil]

theorem Cuts.take_eq (h : Cuts items before kept after limit offset) :
    take (.arr items) limit offset = ⟨.arr kept, kept.length < items.length,
      some items.length⟩ := by
  have hwindow := h.window
  simp only [take, Json.arr.injEq] at hwindow ⊢
  rw [hwindow]

/-- A window that overruns reaches the end of the list. -/
theorem Cuts.after_eq_nil (h : Cuts items before kept after limit offset)
    (hover : Overruns items limit offset) :
    after = [] := by
  obtain ⟨-, hstop⟩ := hover
  have hlength := h.length_eq
  have hends := h.ends
  rw [Slice.place_of_nonneg (by omega : 0 ≤ offset.getD 0 + limit.getD defaultLength)] at hends
  apply List.length_eq_zero_iff.mp
  omega

/-- The sum of offset and window falls short of the list if elements follow the
window, and besides only if the window overruns. -/
theorem Cuts.short_iff (h : Cuts items before kept after limit offset) (hdropped : kept ≠ items) :
    offset.getD 0 + kept.length < items.length ↔ after ≠ [] ∨
    Overruns items limit offset := by
  have hlength := h.length_eq
  have hstarts := h.starts
  have hends := h.ends
  have hsmaller := h.length_lt_iff.mpr hdropped
  have hafter : after ≠ [] ↔ 0 < after.length := List.length_pos_iff.symm
  rw [hafter, Overruns]
  -- the offset and the stop may each be counted from the start or from the end
  rcases Int.lt_or_le (offset.getD 0) 0 with hnegative | hnonneg
  · rw [Slice.place_of_neg hnegative] at hstarts hends
    rcases Int.lt_or_le (offset.getD 0 + limit.getD defaultLength) 0 with hstop | hstop
    · rw [Slice.place_of_neg hstop] at hends
      omega
    · rw [Slice.place_of_nonneg hstop] at hends
      omega
  · rw [Slice.place_of_nonneg hnonneg] at hstarts
    omega

end Page

/-! ### The budget

Truncation replaces the main list of a result. That list never stands under a
hidden key and the entry on the window always does, so the entry is left as it
is. -/

namespace Budget

/-- The main list of a result has no hidden key. -/
theorem isHidden_of_primaryIn? {entries : Entries Json} {key : String}
    (h : primaryIn? entries = some key) :
    isHidden key = false := by
  rw [primaryIn?] at h
  split at h
  · obtain rfl := Option.some.inj h
    decide
  · obtain ⟨entry, hentry, rfl⟩ := Option.map_eq_some_iff.mp h
    have hvisible := List.find?_some hentry
    simp only [Bool.and_eq_true, Bool.not_eq_true'] at hvisible
    exact hvisible.1

/-- Truncation leaves what stands under hidden keys as it is. -/
theorem find?_truncate_of_isHidden (entries : Entries Json) (budget : Int) {key : String}
    (h : isHidden key = true) :
    Entries.find? (truncate entries budget).entries key = Entries.find? entries key := by
  rw [truncate]
  split
  · rfl
  · next main hmain =>
      have hne : key ≠ main := by
        rintro rfl
        rw [isHidden_of_primaryIn? hmain] at h
        cases h
      simp only
      split
      · rfl
      · split
        · rfl
        · exact Entries.find?_put_of_ne entries _ hne

/-- A result that is fitted to a budget is an object still, with the same under
hidden keys. -/
theorem exists_fit (entries : Entries Json) (budget : Int) :
    ∃ shown, (fit (.obj entries) budget).2 = .obj shown ∧
      ∀ key, isHidden key = true → Entries.find? shown key = Entries.find? entries key := by
  rw [fit]
  split
  · exact ⟨entries, rfl, fun _ _ => rfl⟩
  · simp only
    split
    · exact ⟨entries, rfl, fun _ _ => rfl⟩
    · exact ⟨_, rfl, fun key hkey => find?_truncate_of_isHidden entries budget hkey⟩

end Budget

/-! ### Runs -/

namespace CommandLine

variable {argv : List String} {sources : Sources} {arguments : Arguments} {ending : Ending}

/-- The answer to a query, with its result fitted to the budget. The hash is
that of all the data, not of the window that was queried. -/
def answer (arguments : Arguments) (hash : String) (result : Json) : Ending :=
  let fitted := Budget.fit result ((arguments.integer? "--max-tokens").getD Budget.default)
  finish arguments
    (.obj [("_status", .str fitted.1.message), ("_shapeHash", .str hash), ("data", fitted.2)])

/-- A query that succeeds has run on the window of the data that was read, and
answers with the result and the entry on the window, filtered. -/
theorem exists_answer (hrun : runQuery sources arguments = .ok ending)
    (hexit : ending.exit = 0) {data : Json} (hread : read sources (operandOf arguments) = .ok data)
    {page : Page.Window} (hpage : windowOf data (arguments.integer? "--limit")
      (arguments.integer? "--offset") = page) :
    ∃ schema result hash,
      Execution.run schema page.data (arguments.valueOr "--query" "") = .ok result ∧
      ending = answer arguments hash (DotPath.filter (arguments.valueOr "--json-filter" "")
        (.obj (withPage result page (arguments.integer? "--limit")
          (arguments.integer? "--offset")))) := by
  subst hpage
  rw [runQuery, hread, Outcome.ok_bind] at hrun
  obtain ⟨declared, -, hrun⟩ := Outcome.bind_eq_ok_iff.mp hrun
  obtain ⟨⟨lookup, cache⟩, -, hrun⟩ := Outcome.bind_eq_ok_iff.mp hrun
  simp only at hrun
  split at hrun
  · split at hrun
    · cases hrun
    · obtain rfl := Except.ok.inj hrun
      cases hexit
  · cases hrun
  · next result hresult =>
      obtain rfl := Except.ok.inj hrun
      exact ⟨lookup.schema, result, lookup.shapeHash, hresult, rfl⟩

/-- With a limit or an offset on the command line, the data that is queried is
the window of them. -/
theorem windowOf_of_given (hrequest : readRequest Tool.query.options argv = .run arguments)
    (hgiven : arguments.has "--limit" = true ∨ arguments.has "--offset" = true) (data : Json) :
    windowOf data (arguments.integer? "--limit") (arguments.integer? "--offset") =
      Page.take data (arguments.integer? "--limit") (arguments.integer? "--offset") := by
  have hlimit := isSome_integer?_iff hrequest "--limit" (by decide)
  have hoffset := isSome_integer?_iff hrequest "--offset" (by decide)
  rw [windowOf, if_pos]
  rwa [hlimit, hoffset, Bool.or_eq_true]

/-- The entry on a window notes more elements if offset and window fall short of
the list. -/
theorem pageEntry_eq_note (items kept : List Json) (truncated : Bool) (limit offset : Option Int) :
    pageEntry ⟨.arr kept, truncated, some items.length⟩ limit offset =
      Page.note items limit offset (offset.getD 0 + kept.length < items.length) :=
  rfl

/-- A value that is not on the command line is the default. -/
theorem valueOr_of_has_eq_false {name : String} (h : arguments.has name = false)
    (default : String) :
    arguments.valueOr name default = default := by
  have hnone : arguments.values name = [] := by
    rw [Arguments.has, Bool.not_eq_false'] at h
    exact List.isEmpty_iff.mp h
  rw [Arguments.valueOr, Arguments.value?, hnone]
  rfl

/-- A query of an array with a limit or an offset, that succeeds and has no
filter, has run on a window of the array. If the window is the whole array, the
answer is the result; else the result has got the entry on the window, which
still stands in what the budget leaves. The entry tells of more if elements
follow the window, and besides only if the window overruns. -/
theorem pageEntry_of_run {items : List Json}
    (hrequest : readRequest Tool.query.options argv = .run arguments)
    (hread : read sources (operandOf arguments) = .ok (.arr items))
    (hgiven : arguments.has "--limit" = true ∨ arguments.has "--offset" = true)
    (hfilter : arguments.has "--json-filter" = false)
    (hrun : Tool.query.run argv sources = .ok ending) (hexit : ending.exit = 0) :
    ∃ schema result before kept after hash whole shown,
      Page.Cuts items before kept after (arguments.integer? "--limit")
      (arguments.integer? "--offset") ∧
      Execution.run schema (.arr kept) (arguments.valueOr "--query" "") = .ok result ∧
      ending = answer arguments hash (.obj whole) ∧
      (Budget.fit (.obj whole) ((arguments.integer? "--max-tokens").getD Budget.default)).2 =
        .obj shown ∧
      (kept = items → whole = result ∧
        Entries.find? shown "_meta" = Entries.find? result "_meta") ∧
      (kept ≠ items → ∃ more,
        whole = Entries.put result "_meta"
          (Page.note items (arguments.integer? "--limit") (arguments.integer? "--offset") more) ∧
        Entries.find? shown "_meta" =
          some (Page.note items (arguments.integer? "--limit")
            (arguments.integer? "--offset") more) ∧
        (more = true ↔ after ≠ [] ∨
          Page.Overruns items (arguments.integer? "--limit") (arguments.integer? "--offset"))) ∧
      (Page.Overruns items (arguments.integer? "--limit") (arguments.integer? "--offset") →
        after = []) := by
  obtain ⟨before, kept, after, hcuts⟩ :=
    Page.exists_cuts items (arguments.integer? "--limit") (arguments.integer? "--offset")
  have hpage := (windowOf_of_given hrequest hgiven (.arr items)).trans hcuts.take_eq
  rw [Tool.run, hrequest] at hrun
  obtain ⟨schema, result, hash, hresult, hanswer⟩ := exists_answer hrun hexit hread hpage
  rw [valueOr_of_has_eq_false hfilter] at hanswer
  generalize hwhole : withPage result _ _ _ = whole at hanswer
  -- the budget leaves the entry alone, since its key is hidden
  obtain ⟨shown, hshown, hhidden⟩ :=
    Budget.exists_fit whole ((arguments.integer? "--max-tokens").getD Budget.default)
  have hmeta : Entries.find? shown "_meta" = Entries.find? whole "_meta" :=
    hhidden "_meta" (by decide)
  refine ⟨schema, result, before, kept, after, hash, whole, shown, hcuts, hresult,
    hanswer, hshown,
    fun hall => ?_, fun hdropped => ?_, hcuts.after_eq_nil⟩
  · have hnot : ¬kept.length < items.length := fun hlt => hcuts.length_lt_iff.mp hlt hall
    have heq : whole = result := by
      rw [← hwhole, withPage, if_neg (by simpa using hnot)]
    exact ⟨heq, heq ▸ hmeta⟩
  · have hsmaller := hcuts.length_lt_iff.mpr hdropped
    have heq : whole = Entries.put result "_meta"
        (Page.note items (arguments.integer? "--limit") (arguments.integer? "--offset")
          ((arguments.integer? "--offset").getD 0 + kept.length < items.length)) := by
      rw [← hwhole, withPage, if_pos (by simpa using hsmaller), pageEntry_eq_note]
    refine ⟨_, heq, ?_, ?_⟩
    · rw [hmeta, heq, Entries.find?_put_self]
    · rw [decide_eq_true_iff]
      exact hcuts.short_iff hdropped

/-- The words that ask for the last element of a list, counted from its end. -/
def lastAsked : List String :=
  ["--query", "\x7b _count \x7d", "--offset", "-1"]

/-- Nothing follows the last of two elements, and the entry on it tells of more. -/
theorem pageEntry_of_run_last :
    ∃ ending arguments schema result before kept after hash whole shown,
      Tool.query.run lastAsked ⟨"[1,2]", fun _ => none⟩ = .ok ending ∧
      Page.Cuts [.int 1, .int 2] before kept after none (some (-1)) ∧
      Execution.run schema (.arr kept) "\x7b _count \x7d" = .ok result ∧
      ending = answer arguments hash (.obj whole) ∧
      (Budget.fit (.obj whole) Budget.default).2 = .obj shown ∧
      Entries.find? shown "_meta" = some (Page.note [.int 1, .int 2] none (some (-1)) true) ∧
      after = [] := by
  have hrequest : readRequest Tool.query.options lastAsked =
      .run ⟨none, [("--query", "\x7b _count \x7d"), ("--offset", "-1")]⟩ := by decide +kernel
  have hread : read ⟨"[1,2]", fun _ => none⟩ "-" = .ok (.arr [.int 1, .int 2]) := rfl
  have hends : (Tool.query.run lastAsked ⟨"[1,2]", fun _ => none⟩).toOption.map
      Ending.exit = some 0 := by
    decide +kernel
  cases hrun : Tool.query.run lastAsked ⟨"[1,2]", fun _ => none⟩ with
  | error error =>
      rw [hrun] at hends
      cases hends
  | ok ending =>
      rw [hrun] at hends
      obtain ⟨schema, result, before, kept, after, hash, whole, shown, hcuts, hresult,
        hanswer, hshown, -,
          hdropped, hafter⟩ :=
        pageEntry_of_run hrequest hread (Or.inr rfl) rfl hrun (Option.some.inj hends)
      have hover : Page.Overruns [.int 1, .int 2] none (some (-1)) := by decide
      -- the first element is left out
      have hne : kept ≠ [.int 1, .int 2] := by
        rintro rfl
        have hstart : before.length = 1 := hcuts.starts
        have hlength := hcuts.length_eq
        omega
      obtain ⟨more, -, hmeta, hmore⟩ := hdropped hne
      obtain rfl : more = true := hmore.mpr (Or.inr hover)
      exact ⟨ending, _, schema, result, before, kept, after, hash, whole, shown, rfl, hcuts,
        hresult, hanswer,
        hshown, hmeta, hafter hover⟩

end CommandLine

end JsonSelection
