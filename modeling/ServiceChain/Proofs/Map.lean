import Std.Data.ExtTreeMap

/-!
# Values of ordered maps

The values of an ordered map are those of its entries in the order of the keys, so a value is one of
them if some key has it.
-/

namespace Std.ExtTreeMap

variable {α β : Type} {cmp : α → α → Ordering} [TransCmp cmp]

theorem values_eq_map_toList (m : ExtTreeMap α β cmp) : m.values = m.toList.map (·.2) := by
  obtain ⟨inner⟩ := m
  induction inner using ExtDTreeMap.inductionOn with
  | _ m =>
    -- the two read the same tree, one for its values and one for its entries
    change DTreeMap.Internal.Impl.values _ = (DTreeMap.Internal.Impl.Const.toList _).map _
    rw [DTreeMap.Internal.Impl.values_eq_map_snd,
      DTreeMap.Internal.Impl.Const.toList_eq_toListModel_map]
    simp

theorem mem_values [LawfulEqCmp cmp] {m : ExtTreeMap α β cmp} {b : β} :
    b ∈ m.values ↔ ∃ a : α, m[a]? = some b := by
  simp only [values_eq_map_toList, List.mem_map, Prod.exists, mem_toList_iff_getElem?_eq_some,
    exists_eq_right]

end Std.ExtTreeMap
