import JsonSelection.FieldName
import JsonSelection.Proofs.Query.Rendering

/-!
# Names made from keys

Whatever the key, `FieldName.sanitize` gives a name that a query can hold, and
`FieldName.fresh` keeps it one.

## What this module delivers

- `FieldName.sanitize_isName`, `FieldName.sanitize_not_reserved`: the name of a
  key is a name, and not reserved.
- `FieldName.sanitize_eq_self`: the texts that stay as they are, are the field
  names.
- `FieldName.fresh_not_mem`: a fresh name is none of the names in use, since a
  name in use has more variants than there are names in use.
- `FieldName.assign_spec`: the names that are given to keys one after the other
  are distinct names.
- `FieldName.sanitize_projection`: sanitizing is a projection onto the field
  names, and the names of root types are names.

No field is named like the type name that every object has
(`FieldName.fresh_sanitize_ne_typename`). A variant may be reserved, though, when
its name is not: the second name for a lone underscore has two of them.
-/

set_option autoImplicit false

namespace JsonSelection

/-! ### Names that are put together -/

namespace Token

/-- What follows a name may be made of any characters of names. -/
theorem IsName.append {word more : String} (h : IsName word)
    (hmore : ∀ c ∈ more.toList, isNameChar c = true) : IsName (word ++ more) := by
  obtain ⟨c, rest, hlist, hc, hrest⟩ := h
  refine ⟨c, rest ++ more.toList, by simp [hlist], hc, ?_⟩
  intro d hd
  rcases List.mem_append.mp hd with hd | hd
  · exact hrest d hd
  · exact hmore d hd

theorem IsName.chars {word : String} (h : IsName word) :
    ∀ c ∈ word.toList, isNameChar c = true := by
  obtain ⟨c, rest, hlist, hc, hrest⟩ := h
  rw [hlist]
  intro d hd
  rcases List.mem_cons.mp hd with rfl | hd
  · exact isNameChar_of_isNameStart hc
  · exact hrest d hd

theorem IsName.join {front back : String} (h : IsName front) (h' : IsName back) :
    IsName (front ++ "_" ++ back) :=
  (h.append (List.all_eq_true.mp (show "_".toList.all isNameChar = true from rfl))).append h'.chars

/-- The elements of a list are told a name, too. -/
theorem IsName.item {word : String} (h : IsName word) : IsName (word ++ "_Item") :=
  h.append (List.all_eq_true.mp (show "_Item".toList.all isNameChar = true from rfl))

end Token

open Token

namespace FieldName

/-- The characters of names other than digits start names. -/
theorem isNameStart_of_not_isDigit {c : Char} (h : isNameChar c = true)
    (hdigit : c.isDigit = false) :
    isNameStart c = true := by
  simp only [isNameChar, Char.isAlphanum, hdigit, Bool.or_false] at h
  exact h

/-- The characters of a name that does not start with two underscores. A single
one may lead it. -/
def IsFieldName (cs : List Char) : Prop :=
  ∃ c rest, cs = c :: rest ∧ isNameStart c = true ∧ (∀ d ∈ rest, isNameChar d = true) ∧
    ¬ ['_', '_'] <+: cs

/-- After the leading digit is guarded, the first character starts a name. -/
theorem guardDigit_spec {cs : List Char} (h : ∀ c ∈ cs, isNameChar c = true) :
    guardDigit cs = [] ∨ ∃ c rest, guardDigit cs = c :: rest ∧ isNameStart c = true ∧
      ∀ d ∈ rest, isNameChar d = true := by
  cases cs with
  | nil => exact Or.inl rfl
  | cons c rest =>
      right
      simp only [guardDigit]
      split
      · exact ⟨'_', c :: rest, rfl, rfl, h⟩
      · next hdigit =>
          have hc := h c List.mem_cons_self
          refine ⟨c, rest, rfl, isNameStart_of_not_isDigit hc (Bool.eq_false_iff.mpr hdigit),
            ?_⟩
          exact fun d hd => h d (List.mem_cons_of_mem c hd)

theorem unreserve_spec {c : Char} {rest : List Char} (hc : isNameStart c = true)
    (hrest : ∀ d ∈ rest, isNameChar d = true) : IsFieldName (unreserve (c :: rest)) := by
  unfold unreserve
  split
  · next others heq =>
      obtain ⟨rfl, rfl⟩ := List.cons.inj heq
      refine ⟨'f', _, rfl, rfl, ?_, by simp⟩
      intro d hd
      rcases List.mem_cons.mp hd with rfl | hd
      · rfl
      · exact hrest d (List.mem_cons_of_mem _ ((List.dropWhile_sublist _).mem hd))
  · next hreserved =>
      refine ⟨c, rest, rfl, hc, hrest, ?_⟩
      rintro ⟨others, heq⟩
      exact hreserved others heq.symm

theorem sanitizeChars_spec (cs : List Char) : IsFieldName (sanitizeChars cs) := by
  -- after the first step only the start of the name and its prefix can be wrong
  have hallowed : ∀ c ∈ cs.map fun c => if isAllowed c then c else '_',
      isNameChar c = true := by
    intro c hc
    obtain ⟨d, -, rfl⟩ := List.mem_map.mp hc
    split
    · next hd => exact hd
    · rfl
  have hempty : IsFieldName "f_empty".toList :=
    ⟨'f', "_empty".toList, rfl, rfl, List.all_eq_true.mp rfl, by decide⟩
  unfold sanitizeChars
  rcases guardDigit_spec hallowed with hnil | ⟨c, rest, heq, hc, hrest⟩
  · rw [hnil]
    exact hempty
  · rw [heq]
    split
    · exact hempty
    · exact unreserve_spec hc hrest

/-- Every key gives a name. -/
theorem sanitize_isName (key : String) : IsName (sanitize key) := by
  obtain ⟨c, rest, heq, hc, hrest, -⟩ := sanitizeChars_spec key.toList
  exact ⟨c, rest, by rw [sanitize, String.toList_ofList, heq], hc, hrest⟩

/-- The name of a key is not reserved. -/
theorem sanitize_not_reserved (key : String) : ¬ ['_', '_'] <+: (sanitize key).toList := by
  obtain ⟨_, _, -, -, -, h⟩ := sanitizeChars_spec key.toList
  rw [sanitize, String.toList_ofList]
  exact h

/-! ### Names that stay as they are -/

theorem guardDigit_of_isNameStart {c : Char} (h : isNameStart c = true) (rest : List Char) :
    guardDigit (c :: rest) = c :: rest := by
  have hdigit : ¬ c.isDigit = true := by
    intro hdigit
    -- digits lie below the letters and the underscore
    have hrange := toNat_of_isDigit hdigit
    have hclass := toNat_of_isNameStart h
    omega
  rw [guardDigit, if_neg hdigit]

theorem unreserve_of_not_prefix {cs : List Char} (h : ¬ ['_', '_'] <+: cs) :
    unreserve cs = cs := by
  unfold unreserve
  split
  · next rest => exact absurd ⟨rest, rfl⟩ h
  · rfl

theorem sanitizeChars_of_isFieldName {cs : List Char} (h : IsFieldName cs) :
    sanitizeChars cs = cs := by
  obtain ⟨c, rest, rfl, hc, hrest, hreserved⟩ := h
  have hallowed : (c :: rest).map (fun d => if isAllowed d then d else '_') = c :: rest := by
    refine (List.map_congr_left fun d hd => ?_).trans (List.map_id' _)
    rcases List.mem_cons.mp hd with rfl | hd
    · exact if_pos (isNameChar_of_isNameStart hc)
    · exact if_pos (hrest d hd)
  rw [sanitizeChars, hallowed, guardDigit_of_isNameStart hc, unreserve_of_not_prefix hreserved]

/-- Of all texts the field names alone are their own names. -/
theorem sanitize_eq_self (name : String) : sanitize name = name ↔ IsFieldName name.toList := by
  constructor
  · intro h
    have hname := sanitizeChars_spec name.toList
    rwa [← String.toList_ofList (l := sanitizeChars name.toList), ← sanitize, h] at hname
  · intro h
    rw [sanitize, sanitizeChars_of_isFieldName h, String.ofList_toList]

/-! ### Variants

A variant is told from the name, and from the other variants, by what stands
behind the last underscore. -/

/-- A numbered variant of a name. -/
def variant (name : String) (k : Nat) : String :=
  name ++ "_" ++ toString (k + 2)

theorem variants_eq_map (name : String) (count : Nat) :
    variants name count = (List.range count).map (variant name) := rfl

theorem toList_variant (name : String) (k : Nat) :
    (variant name k).toList = name.toList ++ '_' :: Nat.toDigits 10 (k + 2) := by
  simp [variant]

theorem variant_injective {name : String} {j k : Nat} (h : variant name j = variant name k) :
    j = k := by
  have hlist := congrArg String.toList h
  rw [toList_variant, toList_variant] at hlist
  have hdigits : Nat.toDigits 10 (j + 2) = Nat.toDigits 10 (k + 2) :=
    (List.cons.inj (List.append_cancel_left hlist)).2
  have hvalue := congrArg (fun digits => Nat.ofDigitChars 10 digits 0) hdigits
  simp only [Nat.ofDigitChars_toDigits (by decide : 1 < 10) (by decide)] at hvalue
  omega

theorem variant_ne_self (name : String) (k : Nat) : variant name k ≠ name := by
  intro h
  have hlength := congrArg (fun text => text.toList.length) h
  simp only [toList_variant, List.length_append, List.length_cons] at hlength
  omega

theorem fresh_eq (used : List String) (name : String) :
    fresh used name = name ∨ ∃ k, fresh used name = variant name k := by
  unfold fresh
  split
  · rw [variants_eq_map]
    cases hfind : ((List.range used.length).map (variant name)).find? fun candidate =>
        !used.contains candidate with
    | none => exact Or.inl rfl
    | some candidate =>
        obtain ⟨k, -, hk⟩ := List.mem_map.mp (List.mem_of_find?_eq_some hfind)
        exact Or.inr ⟨k, hk.symm⟩
  · exact Or.inl rfl

/-- A fresh name is none of the names in use. -/
theorem fresh_not_mem (used : List String) (name : String) : fresh used name ∉ used := by
  unfold fresh
  split
  · next hused =>
      rw [variants_eq_map]
      cases hfind : ((List.range used.length).map (variant name)).find? fun candidate =>
          !used.contains candidate with
      | some candidate => simpa using List.find?_some hfind
      | none =>
          -- the name and all its variants would be in use, which is one too many
          have hnodup : (name :: (List.range used.length).map (variant name)).Nodup := by
            rw [List.nodup_cons]
            constructor
            · intro hmem
              obtain ⟨k, -, hk⟩ := List.mem_map.mp hmem
              exact variant_ne_self name k hk
            · exact List.Pairwise.map _ (fun j k hne heq => hne (variant_injective heq))
                List.nodup_range
          have hsubset : name :: (List.range used.length).map (variant name) ⊆ used := by
            intro candidate hmem
            rcases List.mem_cons.mp hmem with rfl | hmem
            · simpa using hused
            · simpa using List.find?_eq_none.mp hfind candidate hmem
          have hlength := hnodup.length_le_of_subset hsubset
          simp only [List.length_cons, List.length_map, List.length_range] at hlength
          omega
  · next hused => simpa using hused

/-- A fresh name is a name. -/
theorem fresh_isName {name : String} (used : List String) (h : IsName name) :
    IsName (fresh used name) := by
  rcases fresh_eq used name with heq | ⟨k, heq⟩
  · rw [heq]
    exact h
  · obtain ⟨c, rest, hlist, hc, hrest⟩ := h
    refine ⟨c, rest ++ '_' :: Nat.toDigits 10 (k + 2), ?_, hc, ?_⟩
    · rw [heq, toList_variant, hlist, List.cons_append]
    · intro d hd
      simp only [List.mem_append, List.mem_cons] at hd
      rcases hd with hd | rfl | hd
      · exact hrest d hd
      · rfl
      · have hdigit := Nat.isDigit_of_mem_toDigits (by decide) (by decide) hd
        simp [isNameChar, Char.isAlphanum, hdigit]

/-- The name of a key, made fresh, is never the type name of objects. -/
theorem fresh_sanitize_ne_typename (used : List String) (key : String) :
    fresh used (sanitize key) ≠ "__typename" := by
  intro h
  rcases fresh_eq used (sanitize key) with heq | ⟨k, heq⟩
  · apply sanitize_not_reserved key
    rw [← heq, h]
    exact ⟨"typename".toList, rfl⟩
  · -- a variant ends in a digit
    have hsuffix : Nat.toDigits 10 (k + 2) <:+ "__typename".toList := by
      refine ⟨(sanitize key).toList ++ ['_'], ?_⟩
      rw [← h, heq, toList_variant, List.append_assoc, List.singleton_append]
    have hlast := hsuffix.getLast Nat.toDigits_ne_nil
    have hdigit := Nat.isDigit_of_mem_toDigits (by decide) (by decide)
      (List.getLast_mem (Nat.toDigits_ne_nil (b := 10) (n := k + 2)))
    rw [hlast] at hdigit
    have hletter : false = true := hdigit
    cases hletter

end FieldName

/-! ### Names with underscores -/

/-- A text with an underscore in it. No root type is named so, and every other
type is, apart from that of a whole response perhaps. -/
def Underscored (text : String) : Prop :=
  '_' ∈ text.toList

theorem underscored_join (front back : String) : Underscored (front ++ "_" ++ back) := by
  simp [Underscored]

theorem underscored_item (front : String) : Underscored (front ++ "_Item") := by
  simp [Underscored]

theorem Underscored.append {text : String} (h : Underscored text) (more : String) :
    Underscored (text ++ more) := by
  rw [Underscored, String.toList_append]
  exact List.mem_append_left _ h

namespace FieldName

/-- A fresh name is the name itself, or it has an underscore before its number. -/
theorem fresh_eq_or_underscored (used : List String) (name : String) :
    fresh used name = name ∨ Underscored (fresh used name) := by
  rcases fresh_eq used name with heq | ⟨k, heq⟩
  · exact Or.inl heq
  · right
    rw [heq, Underscored, toList_variant]
    exact List.mem_append_right _ List.mem_cons_self

theorem length_le_fresh (used : List String) (name : String) :
    name.length ≤ (fresh used name).length := by
  rcases fresh_eq used name with hsame | ⟨k, hvariant⟩
  · exact Nat.le_of_eq (congrArg String.length hsame.symm)
  · rw [hvariant, variant, String.length_append, String.length_append]
    omega

/-- The field names of some keys in order, each kept apart from those in use and
those before it. -/
def assign : List String → List String → List String
  | _, [] => []
  | used, key :: rest =>
      let name := fresh used (sanitize key)
      name :: assign (used ++ [name]) rest

/-- Assigned names are distinct names that were not in use. -/
theorem assign_spec (used keys : List String) :
    (assign used keys).Nodup ∧ ∀ name ∈ assign used keys, Token.IsName name ∧
    name ∉ used := by
  induction keys generalizing used with
  | nil => exact ⟨List.nodup_nil, by simp [assign]⟩
  | cons key rest ih =>
      obtain ⟨hdistinct, hnames⟩ := ih (used ++ [fresh used (sanitize key)])
      rw [assign, List.nodup_cons]
      refine ⟨⟨?_, hdistinct⟩, ?_⟩
      · intro hmem
        exact (hnames _ hmem).2 (List.mem_append_right used List.mem_cons_self)
      · intro name hname
        rcases List.mem_cons.mp hname with rfl | hname
        · exact ⟨fresh_isName used (sanitize_isName key), fresh_not_mem used _⟩
        · obtain ⟨hisName, hunused⟩ := hnames name hname
          exact ⟨hisName, fun hused => hunused (List.mem_append_left _ hused)⟩

/-- Every assigned name is the name of some key, made fresh. -/
theorem exists_of_mem_assign {used keys : List String} {name : String}
    (h : name ∈ assign used keys) : ∃ taken key, name = fresh taken (sanitize key) := by
  induction keys generalizing used with
  | nil => cases h
  | cons key rest ih =>
      rcases List.mem_cons.mp h with rfl | h
      · exact ⟨used, key, rfl⟩
      · exact ih h

end FieldName

namespace TypeName

/-- Joined words are made of the characters of names. -/
theorem joinWords_spec (started gap : Bool) (cs : List Char) :
    ∀ c ∈ joinWords started gap cs, isNameChar c = true := by
  induction cs generalizing started gap with
  | nil => simp [joinWords]
  | cons c rest ih =>
      simp only [joinWords]
      split
      · next hc =>
          intro d hd
          have hname : isNameChar c = true := by
            simp [isNameChar, hc]
          rcases List.mem_append.mp hd with hd | hd
          · split at hd
            · simp only [List.mem_cons, List.not_mem_nil, or_false] at hd
              rcases hd with rfl | rfl
              · rfl
              · exact hname
            · rw [List.mem_singleton.mp hd]
              exact hname
          · exact ih true false d hd
      · exact ih started true

/-- The name of a root type is a name. -/
theorem derive_isName (method path : String) : IsName (derive method path) := by
  unfold derive
  split
  · exact ⟨'U', "nknown".toList, rfl, rfl, List.all_eq_true.mp rfl⟩
  · next hfilled =>
      have hall := joinWords_spec false false (method ++ "_" ++ path).toList
      rcases FieldName.guardDigit_spec hall with hnil | ⟨c, rest, hguard, hc, hrest⟩
      · -- a digit is guarded, not dropped
        cases hwords : joinWords false false (method ++ "_" ++ path).toList with
        | nil => exact absurd hwords hfilled
        | cons c rest =>
            rw [hwords, FieldName.guardDigit] at hnil
            split at hnil <;> cases hnil
      · exact ⟨c, rest, by rw [String.toList_ofList, hguard], hc, hrest⟩

end TypeName

/-- Sanitizing is a projection onto the field names: every key gives a field
name, the field names and no other texts stay as they are, and sanitizing twice
is sanitizing once. What is derived from a method and a path is a name in any
case. -/
theorem FieldName.sanitize_projection (key name method path : String) :
    IsFieldName (sanitize key).toList ∧ (sanitize name = name ↔ IsFieldName name.toList) ∧
      sanitize (sanitize key) = sanitize key ∧ IsName (TypeName.derive method path) := by
  have hkey : IsFieldName (sanitize key).toList := by
    rw [sanitize, String.toList_ofList]
    exact sanitizeChars_spec key.toList
  exact ⟨hkey, sanitize_eq_self name, (sanitize_eq_self (sanitize key)).mpr hkey,
    TypeName.derive_isName method path⟩

end JsonSelection
