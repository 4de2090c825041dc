/-!
# Stepflow.Text.Parts — a list of characters between separators

There is one part more than there are separators.  Parts that do not have the separator in them come
back from what they are joined to.
-/

namespace Stepflow.Text

/-- The part before the first separator, and the parts between and after the separators. -/
def parts (sep : Char) : List Char → List Char × List (List Char)
  | [] => ([], [])
  | c :: rest =>
    let (head, tail) := parts sep rest
    if c = sep then ([], head :: tail) else (c :: head, tail)

/-- All parts. -/
def split (sep : Char) (cs : List Char) : List (List Char) :=
  (parts sep cs).1 :: (parts sep cs).2

/-- The part before the first separator, and what comes after it if there is one. -/
def cut (sep : Char) : List Char → List Char × Option (List Char)
  | [] => ([], none)
  | c :: rest =>
    if c = sep then ([], some rest)
    else
      let (head, tail) := cut sep rest
      (c :: head, tail)

/-- Characters before the first separator go to the first part. -/
theorem parts_append {sep : Char} {cs : List Char} (h : sep ∉ cs) (rest : List Char) :
    parts sep (cs ++ rest) = (cs ++ (parts sep rest).1, (parts sep rest).2) := by
  induction cs with
  | nil => rfl
  | cons c more ih =>
    obtain ⟨here, later⟩ : sep ≠ c ∧ sep ∉ more := by simpa using h
    rw [List.cons_append, parts, ih later]
    exact if_neg (Ne.symm here)

/-- Parts that do not have the separator in them come back. -/
theorem parts_flatMap {sep : Char} {head : List Char} {tail : List (List Char)} (hhead : sep ∉ head)
    (htail : ∀ part ∈ tail, sep ∉ part) : parts sep (head ++ tail.flatMap (sep :: ·)) = (head, tail) := by
  induction tail generalizing head with
  | nil => exact (parts_append hhead []).trans (by simp [parts])
  | cons part more ih =>
    have others := ih (htail part List.mem_cons_self) fun p hp => htail p (List.mem_cons_of_mem part hp)
    rw [List.flatMap_cons, List.cons_append, parts_append hhead, parts, others]
    simp

end Stepflow.Text
