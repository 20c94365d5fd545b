import JsonSelection.Proofs.Json.Quoting
import JsonSelection.Shape.Fingerprint

/-!
# Texts of shapes

No text of a shape is the beginning of the text of another one, so a shape can
be told from its text (`Shape.text_injective`), and so can every shape inside
it.

The first character of a text tells the kind of the shape (`Shape.mark`). Lists
and objects are closed by a bracket or a brace of their own, and keys are
quoted, so that no character in a key can be taken for one of the text around
it. The proof is by induction on one of the shapes, together with the fields of
objects, which end where their brace stands (`Shape.text_cancel`).
-/

set_option autoImplicit false

namespace JsonSelection

namespace Shape

/-- The first character of the text of a shape. The two kinds of lists share
theirs, and only what follows tells them apart. -/
def mark : Shape → Char
  | null => 'n'
  | opaqueJson => 'J'
  | boolean => 'b'
  | integer => 'i'
  | float => 'f'
  | string => 's'
  | emptyList => '['
  | list _ => '['
  | object _ => '\x7b'

theorem text_eq_cons (shape : Shape) : ∃ rest, shape.text.toList = shape.mark :: rest := by
  cases shape with
  | list item => exact ⟨item.text.toList ++ [']'], by simp [text, mark]⟩
  | object fields => exact ⟨(fieldsText true fields).toList ++ ['\x7d'], by simp [text, mark]⟩
  | _ => exact ⟨_, rfl⟩

theorem mark_ne_closing (shape : Shape) : shape.mark ≠ ']' := by
  cases shape with
  | list _ => exact (by decide : '[' ≠ ']')
  | object _ => exact (by decide : '\x7b' ≠ ']')
  | _ => decide

theorem toList_list (item : Shape) :
    (list item).text.toList = '[' :: (item.text.toList ++ [']']) := by
  simp [text]

theorem toList_object (fields : List (String × Shape)) :
    (object fields).text.toList = '\x7b' :: ((fieldsText true fields).toList ++ ['\x7d']) := by
  simp [text]

theorem toList_fields (isFirst : Bool) (key : String) (shape : Shape)
    (rest : List (String × Shape)) : (fieldsText isFirst ((key, shape) :: rest)).toList =
      (if isFirst then [] else [',']) ++ ((Json.quoted key).toList ++ ':' :: (shape.text.toList ++
        (fieldsText false rest).toList)) := by
  cases isFirst <;> simp [fieldsText]

theorem quoted_eq_cons (key : String) : ∃ rest, (Json.quoted key).toList = '"' :: rest := by
  rw [Json.quoted, String.toList_ofList]
  exact ⟨_, rfl⟩

/-- The text of an empty list is not that of a list with an element. -/
theorem emptyList_ne_list (item : Shape) (rest rest' : List Char) :
    emptyList.text.toList ++ rest ≠ (list item).text.toList ++ rest' := by
  obtain ⟨others, hitem⟩ := text_eq_cons item
  rw [toList_list, hitem]
  intro h
  have hclosing : ']' = item.mark := (List.cons.inj (List.cons.inj h).2).1
  exact mark_ne_closing item hclosing.symm

/-- Texts of fields that are followed by a closing brace end together. -/
theorem fields_nil_ne_cons (isFirst : Bool) (key : String) (shape : Shape)
    (others : List (String × Shape)) (rest rest' : List Char) :
    (fieldsText isFirst []).toList ++ '\x7d' :: rest ≠
      (fieldsText isFirst ((key, shape) :: others)).toList ++ '\x7d' :: rest' := by
  obtain ⟨tail, hquoted⟩ := quoted_eq_cons key
  rw [toList_fields, hquoted]
  intro h
  cases isFirst with
  | true =>
      have hfirst : '\x7d' = '"' := (List.cons.inj h).1
      revert hfirst
      decide
  | false =>
      have hfirst : '\x7d' = ',' := (List.cons.inj h).1
      revert hfirst
      decide

mutual

/-- Two shapes whose texts begin the same text are the same, and so is what
follows them. -/
theorem text_cancel : ∀ (shape other : Shape) {rest rest' : List Char},
    shape.text.toList ++ rest = other.text.toList ++ rest' → shape = other ∧ rest = rest'
  | shape, other, rest, rest', h => by
      have hmark : shape.mark = other.mark := by
        obtain ⟨_, hshape⟩ := text_eq_cons shape
        obtain ⟨_, hother⟩ := text_eq_cons other
        rw [hshape, hother] at h
        exact (List.cons.inj h).1
      cases shape with
      | list item =>
          cases other with
          | list item' =>
              rw [toList_list, toList_list, List.cons_append, List.cons_append, List.append_assoc,
                List.append_assoc] at h
              obtain ⟨rfl, hrest⟩ := text_cancel item item' (List.cons.inj h).2
              exact ⟨rfl, (List.cons.inj hrest).2⟩
          | emptyList => exact absurd h.symm (emptyList_ne_list item rest' rest)
          | _ => simp [mark] at hmark
      | object fields =>
          cases other with
          | object fields' =>
              rw [toList_object, toList_object, List.cons_append, List.cons_append,
                List.append_assoc,
                List.append_assoc] at h
              obtain ⟨rfl, hrest⟩ := fieldsText_cancel true fields fields' (List.cons.inj h).2
              exact ⟨rfl, hrest⟩
          | _ => simp [mark] at hmark
      | emptyList =>
          cases other with
          | emptyList => exact ⟨rfl, List.append_cancel_left h⟩
          | list item => exact absurd h (emptyList_ne_list item rest rest')
          | _ => simp [mark] at hmark
      | _ =>
          -- every other shape is told by its mark
          cases other <;> first
            | simp [mark] at hmark; done
            | exact ⟨rfl, List.append_cancel_left h⟩

/-- The same of the fields of an object, which a closing brace follows. -/
theorem fieldsText_cancel : ∀ (isFirst : Bool) (fields others : List (String × Shape))
    {rest rest' : List Char},
    (fieldsText isFirst fields).toList ++ '\x7d' :: rest =
      (fieldsText isFirst others).toList ++ '\x7d' :: rest' → fields = others ∧ rest = rest'
  | _, [], [], _, _, h => ⟨rfl, (List.cons.inj h).2⟩
  | isFirst, [], (key, shape) :: others, rest, rest', h =>
      absurd h (fields_nil_ne_cons isFirst key shape others rest rest')
  | isFirst, (key, shape) :: fields, [], rest, rest', h =>
      absurd h.symm (fields_nil_ne_cons isFirst key shape fields rest' rest)
  | isFirst, (key, shape) :: fields, (key', shape') :: others, rest, rest', h => by
      simp only [toList_fields, List.append_assoc, List.cons_append] at h
      obtain ⟨rfl, hvalue⟩ := Json.quoted_cancel (List.append_cancel_left h)
      obtain ⟨rfl, hfields⟩ := text_cancel shape shape' (List.cons.inj hvalue).2
      obtain ⟨rfl, hrest⟩ := fieldsText_cancel false fields others hfields
      exact ⟨rfl, hrest⟩

end

/-- Shapes of one text are the same. -/
theorem text_injective {shape other : Shape} (h : shape.text = other.text) : shape = other := by
  have hlist : shape.text.toList ++ [] = other.text.toList ++ [] := by rw [h]
  exact (text_cancel shape other hlist).1

end Shape

end JsonSelection
