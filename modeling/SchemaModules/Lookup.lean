/-!
# Look-ups in lists of pairs

A list of pairs serves as a table: the first pair with a key gives its value. Replacing a value drops
the pairs with its key and puts a new one in front, and changes no other value.
-/

namespace SchemaModules

variable {α β : Type} [BEq α] [LawfulBEq α]

/-- Dropping the pairs of one key changes no value of another. -/
theorem lookup_filter_ne {key dropped : α} (h : key ≠ dropped) (table : List (α × β)) :
    (table.filter fun p => p.1 != dropped).lookup key = table.lookup key := by
  induction table with
  | nil => rfl
  | cons p table ih =>
    obtain ⟨k, v⟩ := p
    by_cases hk : k = dropped
    · subst hk
      have hne : (key == k) = false := by simpa using h
      simp [List.lookup_cons, hne, ih]
    · have hkeep : (k != dropped) = true := by simpa using hk
      simp only [List.filter_cons, hkeep, if_true, List.lookup_cons, ih]

/-- After a value has been replaced its key has the new value, and the others have what they had. -/
theorem lookup_replace [DecidableEq α] (key replaced : α) (value : β) (table : List (α × β)) :
    ((replaced, value) :: table.filter fun p => p.1 != replaced).lookup key =
      if key = replaced then some value else table.lookup key := by
  by_cases h : key = replaced
  · subst h
    simp
  · have hne : (key == replaced) = false := by simpa using h
    simp [List.lookup_cons, hne, h, lookup_filter_ne h]

end SchemaModules
