import FleetConsole.Json.Value

/-!
# Comparing values

Whether two values are equal can be decided, part by part.
-/

namespace FleetConsole.Json

mutual

def same : Json → Json → Bool
  | .null, .null => true
  | .bool a, .bool b => decide (a = b)
  | .number a, .number b => decide (a = b)
  | .text a, .text b => decide (a = b)
  | .array xs, .array ys => sameItems xs ys
  | .object xs, .object ys => sameFields xs ys
  | _, _ => false

def sameItems : List Json → List Json → Bool
  | [], [] => true
  | x :: xs, y :: ys => same x y && sameItems xs ys
  | _, _ => false

def sameFields : List (String × Json) → List (String × Json) → Bool
  | [], [] => true
  | (a, x) :: xs, (b, y) :: ys => decide (a = b) && same x y && sameFields xs ys
  | _, _ => false

end

mutual

theorem same_refl : ∀ a : Json, same a a = true
  | .null => by rw [same]
  | .bool a => by rw [same, decide_eq_true rfl]
  | .number a => by rw [same, decide_eq_true rfl]
  | .text a => by rw [same, decide_eq_true rfl]
  | .array xs => by rw [same, sameItems_refl xs]
  | .object xs => by rw [same, sameFields_refl xs]

theorem sameItems_refl : ∀ xs : List Json, sameItems xs xs = true
  | [] => by rw [sameItems]
  | x :: xs => by rw [sameItems, same_refl x, sameItems_refl xs]; rfl

theorem sameFields_refl : ∀ xs : List (String × Json), sameFields xs xs = true
  | [] => by rw [sameFields]
  | (a, x) :: xs => by rw [sameFields, decide_eq_true rfl, same_refl x, sameFields_refl xs]; rfl

end

mutual

theorem eq_of_same : ∀ a b : Json, same a b = true → a = b
  | .null, b, h => by cases b <;> simp_all [same]
  | .bool _, b, h => by cases b <;> simp_all [same]
  | .number _, b, h => by cases b <;> simp_all [same]
  | .text _, b, h => by cases b <;> simp_all [same]
  | .array xs, b, h => by
    cases b with
    | array ys =>
      rw [same] at h
      rw [eq_of_sameItems xs ys h]
    | _ => simp [same] at h
  | .object xs, b, h => by
    cases b with
    | object ys =>
      rw [same] at h
      rw [eq_of_sameFields xs ys h]
    | _ => simp [same] at h

theorem eq_of_sameItems : ∀ xs ys : List Json, sameItems xs ys = true → xs = ys
  | [], ys, h => by cases ys <;> simp_all [sameItems]
  | x :: xs, ys, h => by
    cases ys with
    | nil => simp [sameItems] at h
    | cons y ys =>
      rw [sameItems, Bool.and_eq_true] at h
      rw [eq_of_same x y h.1, eq_of_sameItems xs ys h.2]

theorem eq_of_sameFields : ∀ xs ys : List (String × Json), sameFields xs ys = true → xs = ys
  | [], ys, h => by cases ys <;> simp_all [sameFields]
  | (a, x) :: xs, ys, h => by
    cases ys with
    | nil => simp [sameFields] at h
    | cons field ys =>
      obtain ⟨b, y⟩ := field
      rw [sameFields, Bool.and_eq_true, Bool.and_eq_true, decide_eq_true_eq] at h
      rw [h.1.1, eq_of_same x y h.1.2, eq_of_sameFields xs ys h.2]

end

instance : DecidableEq Json := fun a b =>
  decidable_of_iff (same a b = true) ⟨eq_of_same a b, fun h => h ▸ same_refl a⟩

end FleetConsole.Json
