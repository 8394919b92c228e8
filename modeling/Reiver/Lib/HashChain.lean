import Mathlib.Data.List.Chain

/-! Chains whose members name the one before them by its hash. Two chains that agree somewhere agree below it. -/

namespace Reiver
variable {β η : Type}

/-- How a member is named and which name it gives to the one before it. Different members have different names. -/
structure ChainHashing (β η : Type) where
  hash : β → η
  parent : β → η
  injective : Function.Injective hash

namespace ChainHashing
variable {H : ChainHashing β η} {l l' : List β} {b b' : β} {g h : Nat}

def Linked (H : ChainHashing β η) (chain : List β) : Prop := chain.IsChain fun a b => H.parent b = H.hash a

theorem Linked.parent_eq (hl : H.Linked l) (hg : l[g]? = some b) (hnext : l[g + 1]? = some b') :
    H.parent b' = H.hash b := by
  obtain ⟨hlt, rfl⟩ := List.getElem?_eq_some_iff.mp hnext
  obtain ⟨_, rfl⟩ := List.getElem?_eq_some_iff.mp hg
  exact List.isChain_iff_getElem.mp hl g hlt

theorem Linked.agree_pred (hl : H.Linked l) (hl' : H.Linked l') (hnext : l[g + 1]? = some b)
    (hnext' : l'[g + 1]? = some b) : l[g]? = l'[g]? := by
  have hlt := (List.getElem?_eq_some_iff.mp hnext).1
  have hlt' := (List.getElem?_eq_some_iff.mp hnext').1
  have hg : l[g]? = some l[g] := List.getElem?_eq_getElem (Nat.lt_of_succ_lt hlt)
  have hg' : l'[g]? = some l'[g] := List.getElem?_eq_getElem (Nat.lt_of_succ_lt hlt')
  have heq : l[g] = l'[g] := H.injective ((hl.parent_eq hg hnext).symm.trans (hl'.parent_eq hg' hnext'))
  rw [hg, hg', heq]

theorem Linked.agree_below (hl : H.Linked l) (hl' : H.Linked l') (hb : l[h]? = some b) (hb' : l'[h]? = some b)
    (hle : g ≤ h) : l[g]? = l'[g]? := by
  induction h generalizing b with
  | zero =>
    obtain rfl : g = 0 := Nat.le_zero.mp hle
    exact hb.trans hb'.symm
  | succ h ih =>
    rcases Nat.lt_or_ge g (h + 1) with hlt | hge
    · have hpred := hl.agree_pred hl' hb hb'
      have hin : h < l.length := Nat.lt_of_succ_lt (List.getElem?_eq_some_iff.mp hb).1
      have hsome : l[h]? = some l[h] := List.getElem?_eq_getElem hin
      exact ih hsome (hpred.symm.trans hsome) (Nat.le_of_lt_succ hlt)
    · obtain rfl : g = h + 1 := Nat.le_antisymm hle hge
      exact hb.trans hb'.symm

end ChainHashing

end Reiver
