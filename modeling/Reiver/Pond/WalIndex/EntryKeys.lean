import Mathlib.Data.Set.Card
import Reiver.Pond.WalIndex.InvertedIndex

/-! # The keys of an index entry

An entry keeps integers and the hashes of other keys in one bitmap. As long as no key is removed whose number the
bitmap still needs for a key of the other kind, the entry is the set of the keys that were added after their last
removal, and the index drops it with its last key. -/

namespace Reiver.Pond

inductive EntryOp where
  | add (pk : PrimaryKey)
  | remove (pk : PrimaryKey)
deriving DecidableEq

namespace EntryOp

def pk : EntryOp → PrimaryKey
  | add pk | remove pk => pk

def apply (hashes : WalHashes) (entry : InvertedIndexEntry) : EntryOp → InvertedIndexEntry
  | add pk => entry.addPk hashes pk
  | remove pk => entry.removePk hashes pk

end EntryOp

/-- The keys that were added after their last removal. -/
def held (ops : List EntryOp) : Set PrimaryKey :=
  {pk | ∃ before after, ops = before ++ .add pk :: after ∧ .remove pk ∉ after}

/-- The entry is the set of the keys it holds. -/
structure ExactSet (hashes : WalHashes) (keys : Set PrimaryKey) (entry : InvertedIndexEntry) (held : Set PrimaryKey) :
    Prop where
  contains : ∀ pk ∈ keys, entry.containsPk hashes pk = true ↔ pk ∈ held
  len : entry.len = held.ncard
  isEmpty : entry.isEmpty = true ↔ held = ∅

/-- A removal takes no number out of the bitmap that a key of the other kind has: an integer not the hash of a text,
    the last text of a hash not an integer. -/
def SafeStep (hashes : WalHashes) (held : Set PrimaryKey) : EntryOp → Prop
  | .add _ => True
  | .remove pk =>
    (∀ n, pk.asU32 = some n → ∀ pk' ∈ held, pk'.asU32 = none → pkId hashes pk' ≠ n) ∧
      (pk.asU32 = none → pk ∈ held →
        (∀ pk' ∈ held, pk'.asU32 = none → pk' ≠ pk → pkId hashes pk' ≠ pkId hashes pk) →
        ∀ pk' ∈ held, pk'.asU32 ≠ some (pkId hashes pk))

def SafeRun (hashes : WalHashes) (ops : List EntryOp) : Prop :=
  ∀ before op after, ops = before ++ op :: after → SafeStep hashes (held before) op

def runEntry (hashes : WalHashes) (valueHash : Nat) (ops : List EntryOp) : InvertedIndexEntry :=
  ops.foldl (EntryOp.apply hashes) (.new valueHash)

structure IndexOp where
  value : ColumnValue
  op : EntryOp

def IndexOp.apply (hashes : WalHashes) (index : InvertedIndex) (e : IndexOp) : InvertedIndex :=
  match e.op with
  | .add pk => index.add hashes e.value pk
  | .remove pk => index.remove hashes e.value pk

def runIndex (hashes : WalHashes) (column : String) (ops : List IndexOp) : InvertedIndex :=
  ops.foldl (IndexOp.apply hashes) (.new column)

def opsUnder (hashes : WalHashes) (hash : Nat) (ops : List IndexOp) : List EntryOp :=
  (ops.filter fun e => hashes.valueHash e.value == hash).map (·.op)

/-! ### What is held -/

section Held
variable {ops : List EntryOp} {pk : PrimaryKey}

theorem held_nil : held [] = ∅ := by
  refine Set.eq_empty_iff_forall_notMem.mpr fun pk h => ?_
  obtain ⟨before, after, heq, -⟩ := h
  exact List.cons_ne_nil _ _ (List.append_eq_nil_iff.mp heq.symm).2

theorem mem_held_append {op : EntryOp} :
    pk ∈ held (ops ++ [op]) ↔ op = .add pk ∨ op ≠ .remove pk ∧ pk ∈ held ops := by
  constructor
  · rintro ⟨before, after, heq, hafter⟩
    rcases List.eq_nil_or_concat after with rfl | ⟨after, last, rfl⟩
    · exact .inl (List.cons_eq_cons.mp (List.append_inj_right' heq rfl)).1
    · rw [List.concat_eq_append, ← List.cons_append, ← List.append_assoc] at heq
      obtain ⟨hops, hlast⟩ := List.append_inj' heq rfl
      rw [List.concat_eq_append, List.mem_append, not_or] at hafter
      refine .inr ⟨fun h => hafter.2 ?_, before, after, hops, hafter.1⟩
      rw [← hlast, h]
      exact List.mem_singleton_self _
  · rintro (rfl | ⟨hne, before, after, rfl, hafter⟩)
    · exact ⟨ops, [], rfl, List.not_mem_nil⟩
    · refine ⟨before, after ++ [op], by rw [List.append_assoc, List.cons_append], fun h => ?_⟩
      rcases List.mem_append.mp h with h | h
      · exact hafter h
      · exact hne (List.mem_singleton.mp h).symm

theorem held_add : held (ops ++ [.add pk]) = insert pk (held ops) := by
  ext pk'
  rw [mem_held_append, Set.mem_insert_iff]
  simp [eq_comm]

theorem held_remove : held (ops ++ [.remove pk]) = held ops \ {pk} := by
  ext pk'
  rw [mem_held_append, Set.mem_sdiff, Set.mem_singleton_iff]
  simp [eq_comm, and_comm]

theorem held_finite (ops : List EntryOp) : (held ops).Finite := by
  induction ops using List.reverseRecOn with
  | nil => exact held_nil ▸ Set.finite_empty
  | append_singleton ops op ih =>
    cases op with
    | add pk => exact held_add ▸ ih.insert pk
    | remove pk => exact held_remove ▸ ih.sdiff

theorem held_subset {keys : Set PrimaryKey} (h : ∀ op ∈ ops, op.pk ∈ keys) : held ops ⊆ keys := by
  rintro pk ⟨before, after, rfl, -⟩
  exact h (.add pk) (List.mem_append_right _ List.mem_cons_self)

end Held

/-! ### The structures of an entry -/

/-- The bitmap has the numbers of the keys, the texts are those of the keys without a number of their own, and the
    integers are the others. -/
structure EntryKeeps (hashes : WalHashes) (entry : InvertedIndexEntry) (held : Set PrimaryKey) : Prop where
  bitmap : ∀ id, id ∈ entry.pkBitmap ↔ ∃ pk ∈ held, pkId hashes pk = id
  texts : ∀ id text, (id, text) ∈ entry.pkHashToOriginal ↔
    ∃ pk ∈ held, pk.asU32 = none ∧ pkId hashes pk = id ∧ pk.toStringRepr = text
  integers : ∀ n, n ∈ entry.integerPks ↔ ∃ pk ∈ held, pk.asU32 = some n
  strings : ∀ pk ∈ held, pk.asU32 = none → entry.hasStringPks = true
  nodup : entry.pkHashToOriginal.Nodup

section Keeps
variable {hashes : WalHashes} {entry : InvertedIndexEntry} {keys held : Set PrimaryKey} {pk : PrimaryKey}

theorem entryKeeps_new (valueHash : Nat) : EntryKeeps hashes (.new valueHash) ∅ where
  bitmap _ := iff_of_false (Finset.notMem_empty _) (by rintro ⟨_, h, _⟩; exact h)
  texts _ _ := iff_of_false List.not_mem_nil (by rintro ⟨_, h, _⟩; exact h)
  integers _ := iff_of_false (Finset.notMem_empty _) (by rintro ⟨_, h, _⟩; exact h)
  strings _ h := absurd h (Set.notMem_empty _)
  nodup := List.nodup_nil

theorem EntryKeeps.addPk (h : EntryKeeps hashes entry held) (pk : PrimaryKey) :
    EntryKeeps hashes (entry.addPk hashes pk) (insert pk held) := by
  have hor : ∀ P : PrimaryKey → Prop, (∃ pk' ∈ insert pk held, P pk') ↔ (∃ pk' ∈ held, P pk') ∨ P pk := by
    intro P
    rw [Set.exists_mem_insert, or_comm]
  refine ⟨fun id => ?_, fun id text => ?_, fun n => ?_, fun pk' hpk' hnone => ?_, ?_⟩
  · rw [hor, mem_pkBitmap_addPk, h.bitmap]
  · rw [hor, mem_texts_addPk, h.texts]
  · rw [hor, mem_integerPks_addPk, h.integers]
  · rw [hasStringPks_addPk]
    rcases Set.mem_insert_iff.mp hpk' with rfl | hheld
    · exact .inr hnone
    · exact .inl (h.strings pk' hheld hnone)
  · cases hpk : pk.asU32 with
    | some n => exact addPk_of_some hpk ▸ h.nodup
    | none =>
      rw [addPk_of_none hpk]
      exact h.nodup.insert

theorem EntryKeeps.removePk_some (h : EntryKeeps hashes entry held) {n : Nat} (hpk : pk.asU32 = some n)
    (hsafe : ∀ pk' ∈ held, pk'.asU32 = none → pkId hashes pk' ≠ n) :
    EntryKeeps hashes (entry.removePk hashes pk) (held \ {pk}) := by
  have hremove : entry.removePk hashes pk =
      { entry with pkBitmap := entry.pkBitmap.erase n, integerPks := entry.integerPks.erase n } := by
    rw [InvertedIndexEntry.removePk, hpk]
  -- Another key has another number.
  have hother : ∀ pk' ∈ held, pk' ≠ pk → pkId hashes pk' ≠ n := by
    intro pk' hheld hne hid
    cases hpk' : pk'.asU32 with
    | some m =>
      rw [pkId_of_some hpk'] at hid
      exact hne (PrimaryKey.asU32_inj (hid ▸ hpk') hpk)
    | none => exact hsafe pk' hheld hpk' hid
  rw [hremove]
  refine ⟨fun id => ?_, fun id text => ?_, fun m => ?_, fun pk' hpk' => h.strings pk' hpk'.1, h.nodup⟩
  · rw [Finset.mem_erase, h.bitmap]
    constructor
    · rintro ⟨hne, pk', hheld, hid⟩
      refine ⟨pk', ⟨hheld, fun heq => hne ?_⟩, hid⟩
      rw [← hid, Set.mem_singleton_iff.mp heq, pkId_of_some hpk]
    · rintro ⟨pk', ⟨hheld, hne⟩, rfl⟩
      exact ⟨hother pk' hheld hne, pk', hheld, rfl⟩
  · rw [h.texts]
    constructor
    · rintro ⟨pk', hheld, hnone, htext⟩
      refine ⟨pk', ⟨hheld, fun heq => ?_⟩, hnone, htext⟩
      rw [Set.mem_singleton_iff.mp heq, hpk] at hnone
      cases hnone
    · rintro ⟨pk', ⟨hheld, -⟩, htext⟩
      exact ⟨pk', hheld, htext⟩
  · rw [Finset.mem_erase, h.integers]
    constructor
    · rintro ⟨hne, pk', hheld, hm⟩
      refine ⟨pk', ⟨hheld, fun heq => hne ?_⟩, hm⟩
      rw [Set.mem_singleton_iff.mp heq, hpk] at hm
      exact (Option.some_inj.mp hm).symm
    · rintro ⟨pk', ⟨hheld, hne⟩, hm⟩
      exact ⟨fun heq => hne (PrimaryKey.asU32_inj (heq ▸ hm) hpk), pk', hheld, hm⟩

theorem EntryKeeps.removePk_none (h : EntryKeeps hashes entry held) (hpk : pk.asU32 = none) (hkeys : held ⊆ keys)
    (hmem : pk ∈ keys) (hinj : keys.InjOn PrimaryKey.toStringRepr)
    (hsafe : pk ∈ held → (∀ pk' ∈ held, pk'.asU32 = none → pk' ≠ pk → pkId hashes pk' ≠ pkId hashes pk) →
      ∀ pk' ∈ held, pk'.asU32 ≠ some (pkId hashes pk)) :
    EntryKeeps hashes (entry.removePk hashes pk) (held \ {pk}) := by
  have hany : ∀ texts : List (Nat × String),
      texts.any (·.1 == pkId hashes pk) = true ↔ ∃ text, (pkId hashes pk, text) ∈ texts := by
    intro texts
    rw [List.any_eq_true]
    constructor
    · rintro ⟨⟨id, text⟩, hin, hid⟩
      exact ⟨text, eq_of_beq hid ▸ hin⟩
    · rintro ⟨text, hin⟩
      exact ⟨_, hin, beq_self_eq_true _⟩
  rw [InvertedIndexEntry.removePk, hpk]
  dsimp only
  rw [← pkId_of_none hpk]
  obtain ⟨originals, horiginals⟩ : ∃ l, entry.pkHashToOriginal.erase (pkId hashes pk, pk.toStringRepr) = l := ⟨_, rfl⟩
  rw [horiginals]
  by_cases hhash : entry.pkHashToOriginal.any (·.1 == pkId hashes pk) = true
  · rw [if_pos hhash]
    have htexts : ∀ id text, (id, text) ∈ originals ↔
        ∃ pk' ∈ held \ {pk}, pk'.asU32 = none ∧ pkId hashes pk' = id ∧ pk'.toStringRepr = text := by
      intro id text
      rw [← horiginals, h.nodup.mem_erase_iff, h.texts]
      constructor
      · rintro ⟨hne, pk', hheld, hnone, hid, htext⟩
        refine ⟨pk', ⟨hheld, fun heq => hne ?_⟩, hnone, hid, htext⟩
        rw [← hid, ← htext, Set.mem_singleton_iff.mp heq]
      · rintro ⟨pk', ⟨hheld, hne⟩, hnone, rfl, rfl⟩
        exact ⟨fun heq => hne (hinj (hkeys hheld) hmem (Prod.mk.inj heq).2), pk', hheld, hnone, rfl, rfl⟩
    refine ⟨fun id => ?_, htexts, fun n => ?_, fun pk' hpk' => h.strings pk' hpk'.1, horiginals ▸ h.nodup.erase _⟩
    · dsimp only
      split
      · next hleft =>
        -- Another text of the hash keeps it in the bitmap.
        obtain ⟨text, htext⟩ := (hany _).mp hleft
        obtain ⟨other, hother, -, hid, -⟩ := (htexts _ _).mp htext
        rw [h.bitmap]
        constructor
        · rintro ⟨pk', hheld, rfl⟩
          by_cases heq : pk' = pk
          · exact ⟨other, hother, heq ▸ hid⟩
          · exact ⟨pk', ⟨hheld, heq⟩, rfl⟩
        · rintro ⟨pk', ⟨hheld, -⟩, hid'⟩
          exact ⟨pk', hheld, hid'⟩
      · next hlast =>
        have halone : ∀ pk' ∈ held, pk'.asU32 = none → pk' ≠ pk → pkId hashes pk' ≠ pkId hashes pk :=
          fun pk' hheld hnone hne hid =>
            hlast ((hany _).mpr ⟨pk'.toStringRepr, (htexts _ _).mpr ⟨pk', ⟨hheld, hne⟩, hnone, hid, rfl⟩⟩)
        have hheldPk : pk ∈ held := by
          obtain ⟨text, htext⟩ := (hany _).mp hhash
          obtain ⟨pk', hheld, hnone, hid, -⟩ := (h.texts _ _).mp htext
          by_cases heq : pk' = pk
          · exact heq ▸ hheld
          · exact absurd hid (halone pk' hheld hnone heq)
        rw [Finset.mem_erase, h.bitmap]
        constructor
        · rintro ⟨hne, pk', hheld, rfl⟩
          exact ⟨pk', ⟨hheld, fun heq => hne (congrArg _ (Set.mem_singleton_iff.mp heq))⟩, rfl⟩
        · rintro ⟨pk', ⟨hheld, hne⟩, rfl⟩
          refine ⟨fun hid => ?_, pk', hheld, rfl⟩
          cases hpk' : pk'.asU32 with
          | some n =>
            rw [pkId_of_some hpk'] at hid
            exact hsafe hheldPk halone pk' hheld (hid ▸ hpk')
          | none => exact halone pk' hheld hpk' hne hid
    · rw [h.integers]
      constructor
      · rintro ⟨pk', hheld, hn⟩
        refine ⟨pk', ⟨hheld, fun heq => ?_⟩, hn⟩
        rw [Set.mem_singleton_iff.mp heq, hpk] at hn
        cases hn
      · rintro ⟨pk', ⟨hheld, -⟩, hn⟩
        exact ⟨pk', hheld, hn⟩
  · rw [if_neg hhash]
    have hnot : pk ∉ held := fun hheld =>
      hhash ((hany _).mpr ⟨pk.toStringRepr, (h.texts _ _).mpr ⟨pk, hheld, hpk, rfl, rfl⟩⟩)
    rwa [Set.sdiff_singleton_eq_self hnot]

theorem EntryKeeps.step {ops : List EntryOp} {op : EntryOp} (h : EntryKeeps hashes entry (Pond.held ops))
    (hkeys : ∀ op ∈ ops, op.pk ∈ keys) (hop : op.pk ∈ keys) (hinj : keys.InjOn PrimaryKey.toStringRepr)
    (hsafe : SafeStep hashes (Pond.held ops) op) :
    EntryKeeps hashes (op.apply hashes entry) (Pond.held (ops ++ [op])) := by
  cases op with
  | add pk => exact held_add ▸ h.addPk pk
  | remove pk =>
    rw [held_remove]
    cases hpk : pk.asU32 with
    | some n => exact h.removePk_some hpk (hsafe.1 n hpk)
    | none => exact h.removePk_none hpk (held_subset hkeys) hop hinj (hsafe.2 hpk)

theorem EntryKeeps.containsPk_iff (h : EntryKeeps hashes entry held) (hkeys : held ⊆ keys) (hpk : pk ∈ keys)
    (hinj : keys.InjOn PrimaryKey.toStringRepr) : entry.containsPk hashes pk = true ↔ pk ∈ held := by
  rw [InvertedIndexEntry.containsPk]
  cases hu : pk.asU32 with
  | some n =>
    have hinteger : (∃ pk' ∈ held, pk'.asU32 = some n) ↔ pk ∈ held := by
      constructor
      · rintro ⟨pk', hheld, hn⟩
        exact PrimaryKey.asU32_inj hn hu ▸ hheld
      · intro hheld
        exact ⟨pk, hheld, hu⟩
    dsimp only
    split
    · rw [decide_eq_true_iff, h.integers, hinteger]
    · next hflag =>
      rw [decide_eq_true_iff, h.bitmap, ← hinteger]
      refine exists_congr fun pk' => and_congr_right fun hheld => ?_
      cases hpk' : pk'.asU32 with
      | some m => rw [pkId_of_some hpk', Option.some_inj]
      | none => exact absurd (h.strings pk' hheld hpk') hflag
  | none =>
    dsimp only
    rw [← pkId_of_none hu, Bool.and_eq_true, decide_eq_true_iff, List.contains_iff_mem, h.texts, h.bitmap]
    constructor
    · rintro ⟨-, pk', hheld, -, -, htext⟩
      exact hinj (hkeys hheld) hpk htext ▸ hheld
    · intro hheld
      exact ⟨⟨pk, hheld, rfl⟩, pk, hheld, hu, rfl, rfl⟩

theorem EntryKeeps.isEmpty_iff (h : EntryKeeps hashes entry held) : entry.isEmpty = true ↔ held = ∅ := by
  rw [InvertedIndexEntry.isEmpty, decide_eq_true_iff, Finset.eq_empty_iff_forall_notMem,
    Set.eq_empty_iff_forall_notMem]
  constructor
  · intro hempty pk hheld
    exact hempty (pkId hashes pk) ((h.bitmap _).mpr ⟨pk, hheld, rfl⟩)
  · intro hempty id hid
    obtain ⟨pk, hheld, -⟩ := (h.bitmap id).mp hid
    exact hempty pk hheld

/-- The keys with a number of their own are as many as the integers, the others as many as the texts. -/
theorem EntryKeeps.ncard (h : EntryKeeps hashes entry held) (hfinite : held.Finite) (hkeys : held ⊆ keys)
    (hinj : keys.InjOn PrimaryKey.toStringRepr) :
    held.ncard = entry.pkHashToOriginal.length + entry.integerPks.card := by
  have htexts : {pk ∈ held | pk.asU32 = none}.ncard = entry.pkHashToOriginal.length := by
    have himage : (fun pk => (pkId hashes pk, pk.toStringRepr)) '' {pk ∈ held | pk.asU32 = none} =
        (entry.pkHashToOriginal.toFinset : Set (Nat × String)) := by
      ext ⟨id, text⟩
      rw [Finset.mem_coe, List.mem_toFinset, h.texts]
      simp [and_assoc]
    have hinjOn : Set.InjOn (fun pk => (pkId hashes pk, pk.toStringRepr)) {pk ∈ held | pk.asU32 = none} :=
      fun _ ha _ hb heq => hinj (hkeys ha.1) (hkeys hb.1) (Prod.mk.inj heq).2
    rw [← hinjOn.ncard_image, himage, Set.ncard_coe_finset, List.toFinset_card_of_nodup h.nodup]
  have hintegers : (held \ {pk ∈ held | pk.asU32 = none}).ncard = entry.integerPks.card := by
    have hsome : ∀ pk ∈ held \ {pk ∈ held | pk.asU32 = none}, pk.asU32 = some (pkId hashes pk) := by
      rintro pk ⟨hheld, hnone⟩
      cases hpk : pk.asU32 with
      | some n => rw [pkId_of_some hpk]
      | none => exact absurd ⟨hheld, hpk⟩ hnone
    have himage : pkId hashes '' (held \ {pk ∈ held | pk.asU32 = none}) = (entry.integerPks : Set Nat) := by
      ext n
      rw [Finset.mem_coe, h.integers]
      constructor
      · rintro ⟨pk, hpk, rfl⟩
        exact ⟨pk, hpk.1, hsome pk hpk⟩
      · rintro ⟨pk, hheld, hn⟩
        refine ⟨pk, ⟨hheld, fun hnone => ?_⟩, pkId_of_some hn⟩
        rw [hnone.2] at hn
        cases hn
    have hinjOn : Set.InjOn (pkId hashes) (held \ {pk ∈ held | pk.asU32 = none}) := fun a ha b hb heq =>
      PrimaryKey.asU32_inj (hsome a ha) (heq ▸ hsome b hb)
    rw [← hinjOn.ncard_image, himage, Set.ncard_coe_finset]
  have hsubset : {pk ∈ held | pk.asU32 = none} ⊆ held := fun _ hpk => hpk.1
  rw [← Set.ncard_sdiff_add_ncard_of_subset hsubset hfinite, htexts, hintegers, Nat.add_comm]

theorem EntryKeeps.exactSet (h : EntryKeeps hashes entry held) (hfinite : held.Finite) (hkeys : held ⊆ keys)
    (hinj : keys.InjOn PrimaryKey.toStringRepr) : ExactSet hashes keys entry held where
  contains _ hpk := h.containsPk_iff hkeys hpk hinj
  len := by
    rw [h.ncard hfinite hkeys hinj, InvertedIndexEntry.len]
    split
    · rfl
    · next hflag =>
      have hnone : ∀ pk ∈ held, pk.asU32 ≠ none := fun pk hheld hpk => hflag (h.strings pk hheld hpk)
      have htexts : entry.pkHashToOriginal = [] := by
        refine List.eq_nil_iff_forall_not_mem.mpr ?_
        rintro ⟨id, text⟩ hin
        obtain ⟨pk, hheld, hpk, -⟩ := (h.texts id text).mp hin
        exact hnone pk hheld hpk
      have hbitmap : entry.pkBitmap = entry.integerPks := by
        ext n
        rw [h.bitmap, h.integers]
        refine exists_congr fun pk => and_congr_right fun hheld => ?_
        cases hpk : pk.asU32 with
        | some m => rw [pkId_of_some hpk, Option.some_inj]
        | none => exact absurd hpk (hnone pk hheld)
      rw [htexts, hbitmap, List.length_nil, Nat.zero_add]
  isEmpty := h.isEmpty_iff

end Keeps

/-! ### Runs -/

section Runs
variable {hashes : WalHashes} {keys : Set PrimaryKey}

theorem SafeRun.of_append {ops : List EntryOp} {op : EntryOp} (h : SafeRun hashes (ops ++ [op])) :
    SafeRun hashes ops ∧ SafeStep hashes (held ops) op :=
  ⟨fun before op' after heq => h before op' (after ++ [op]) (by rw [heq, List.append_assoc, List.cons_append]),
    h ops op [] rfl⟩

theorem runEntry_keeps (hinj : keys.InjOn PrimaryKey.toStringRepr) (valueHash : Nat) {ops : List EntryOp}
    (hkeys : ∀ op ∈ ops, op.pk ∈ keys) (hsafe : SafeRun hashes ops) :
    EntryKeeps hashes (runEntry hashes valueHash ops) (held ops) := by
  induction ops using List.reverseRecOn with
  | nil => exact held_nil ▸ entryKeeps_new valueHash
  | append_singleton ops op ih =>
    have hops : ∀ op' ∈ ops, op'.pk ∈ keys := fun op' h => hkeys op' (List.mem_append_left _ h)
    have hlast : op.pk ∈ keys := hkeys op (List.mem_append_right _ (List.mem_singleton_self op))
    rw [runEntry, List.foldl_append]
    exact (ih hops hsafe.of_append.1).step hops hlast hinj hsafe.of_append.2

/-- What an index has under a hash: an entry that keeps keys, or nothing and no key. -/
def IndexKeeps (hashes : WalHashes) (index : InvertedIndex) (ops : List IndexOp) : Prop :=
  ∀ hash, (index.entries.lookup hash).elim (held (opsUnder hashes hash ops) = ∅) fun entry =>
    EntryKeeps hashes entry (held (opsUnder hashes hash ops)) ∧ (held (opsUnder hashes hash ops)).Nonempty

theorem opsUnder_append (hash : Nat) (ops : List IndexOp) (e : IndexOp) : opsUnder hashes hash (ops ++ [e]) =
    if hash = hashes.valueHash e.value then opsUnder hashes hash ops ++ [e.op] else opsUnder hashes hash ops := by
  rw [opsUnder, List.filter_append, List.map_append, List.filter_singleton, opsUnder]
  by_cases h : hash = hashes.valueHash e.value
  · rw [if_pos h, h, beq_self_eq_true]
    rfl
  · rw [if_neg h, beq_false_of_ne (Ne.symm h)]
    exact List.append_nil _

theorem opsUnder_pk {ops : List IndexOp} (hkeys : ∀ e ∈ ops, e.op.pk ∈ keys) (hash : Nat) :
    ∀ op ∈ opsUnder hashes hash ops, op.pk ∈ keys := by
  intro op hop
  obtain ⟨e, he, rfl⟩ := List.mem_map.mp hop
  exact hkeys e (List.mem_filter.mp he).1

theorem IndexKeeps.step {index : InvertedIndex} {ops : List IndexOp} {e : IndexOp} (h : IndexKeeps hashes index ops)
    (hkeys : ∀ e ∈ ops, e.op.pk ∈ keys) (hop : e.op.pk ∈ keys) (hinj : keys.InjOn PrimaryKey.toStringRepr)
    (hsafe : SafeStep hashes (held (opsUnder hashes (hashes.valueHash e.value) ops)) e.op) :
    IndexKeeps hashes (e.apply hashes index) (ops ++ [e]) := by
  intro hash
  have hold := h (hashes.valueHash e.value)
  have hpks : ∀ op ∈ opsUnder hashes (hashes.valueHash e.value) ops, op.pk ∈ keys := opsUnder_pk hkeys _
  rw [opsUnder_append]
  rw [IndexOp.apply]
  obtain ⟨value, op⟩ := e
  cases op with
  | add pk =>
    dsimp only at hold hpks ⊢
    rw [lookup_index_add]
    by_cases heq : hash = hashes.valueHash value
    · rw [if_pos heq, if_pos heq, heq, Option.elim_some, held_add]
      refine ⟨?_, Set.insert_nonempty _ _⟩
      cases hlookup : index.entries.lookup (hashes.valueHash value) with
      | some entry =>
        rw [hlookup, Option.elim_some] at hold
        exact hold.1.addPk pk
      | none =>
        rw [hlookup, Option.elim_none] at hold
        rw [hold]
        exact (entryKeeps_new _).addPk pk
    · rw [if_neg heq, if_neg heq]
      exact h hash
  | remove pk =>
    dsimp only at hold hpks hsafe ⊢
    rw [lookup_index_remove]
    by_cases heq : hash = hashes.valueHash value
    · rw [if_pos heq, if_pos heq, heq]
      cases hlookup : index.entries.lookup (hashes.valueHash value) with
      | some entry =>
        rw [hlookup, Option.elim_some] at hold
        have hkeeps := hold.1.step hpks hop hinj hsafe
        rw [EntryOp.apply] at hkeeps
        rw [Option.bind_some]
        split
        · next hempty => exact hkeeps.isEmpty_iff.mp hempty
        · next hsome =>
          refine ⟨hkeeps, Set.nonempty_iff_ne_empty.mpr fun hempty => hsome (hkeeps.isEmpty_iff.mpr hempty)⟩
      | none =>
        rw [hlookup, Option.elim_none] at hold
        rw [Option.bind_none, Option.elim_none, held_remove, hold, Set.empty_sdiff]
    · rw [if_neg heq, if_neg heq]
      exact h hash

def SafeIndexRun (hashes : WalHashes) (ops : List IndexOp) : Prop :=
  ∀ before e after, ops = before ++ e :: after →
    SafeStep hashes (held (opsUnder hashes (hashes.valueHash e.value) before)) e.op

theorem runIndex_keeps (hinj : keys.InjOn PrimaryKey.toStringRepr) (column : String) {ops : List IndexOp}
    (hkeys : ∀ e ∈ ops, e.op.pk ∈ keys) (hsafe : SafeIndexRun hashes ops) :
    IndexKeeps hashes (runIndex hashes column ops) ops := by
  induction ops using List.reverseRecOn with
  | nil => exact fun _ => held_nil
  | append_singleton ops e ih =>
    have hops : ∀ e' ∈ ops, e'.op.pk ∈ keys := fun e' h => hkeys e' (List.mem_append_left _ h)
    have hlast : e.op.pk ∈ keys := hkeys e (List.mem_append_right _ (List.mem_singleton_self e))
    have hbefore : SafeIndexRun hashes ops := fun before e' after heq =>
      hsafe before e' (after ++ [e]) (by rw [heq, List.append_assoc, List.cons_append])
    rw [runIndex, List.foldl_append]
    exact (ih hops hbefore).step hops hlast hinj (hsafe ops e [] rfl)

/-- Where no removal takes a number of the other kind, every entry is the exact set of its keys, and an index has no
    entry only where there is no key. -/
theorem exactSet_of_safe (hinj : keys.InjOn PrimaryKey.toStringRepr) :
    (∀ valueHash ops, (∀ op ∈ ops, op.pk ∈ keys) → SafeRun hashes ops →
      ExactSet hashes keys (runEntry hashes valueHash ops) (held ops)) ∧
    ∀ column ops, (∀ e ∈ ops, e.op.pk ∈ keys) → SafeIndexRun hashes ops → ∀ hash,
      ((runIndex hashes column ops).entries.lookup hash = none → held (opsUnder hashes hash ops) = ∅) ∧
      ∀ entry ∈ (runIndex hashes column ops).entries.lookup hash,
        ExactSet hashes keys entry (held (opsUnder hashes hash ops)) := by
  constructor
  · intro valueHash ops hkeys hsafe
    exact (runEntry_keeps hinj valueHash hkeys hsafe).exactSet (held_finite ops) (held_subset hkeys) hinj
  · intro column ops hkeys hsafe hash
    have hkeeps := runIndex_keeps hinj column hkeys hsafe hash
    constructor
    · intro hlookup
      rw [hlookup] at hkeeps
      exact hkeeps
    · intro entry hlookup
      rw [Option.mem_def.mp hlookup] at hkeeps
      exact hkeeps.1.exactSet (held_finite _) (held_subset (opsUnder_pk hkeys hash)) hinj

end Runs

/-! ### A collision -/

/-- Hashes that give every text the number of an integer key. -/
def collidingHashes : WalHashes := ⟨fun _ => 0, fun _ => 7⟩

def collidingKeys : Set PrimaryKey := {.int64 7, .string "a"}

theorem collidingKeys_injOn : collidingKeys.InjOn PrimaryKey.toStringRepr := by
  have hne : PrimaryKey.toStringRepr (.int64 7) ≠ PrimaryKey.toStringRepr (.string "a") := by decide
  rintro _ (rfl | rfl) _ (rfl | rfl) heq
  · rfl
  · exact absurd heq hne
  · exact absurd heq.symm hne
  · rfl

theorem SafeRun.concat {hashes : WalHashes} {ops : List EntryOp} {op : EntryOp} (h : SafeRun hashes ops)
    (hop : SafeStep hashes (held ops) op) : SafeRun hashes (ops ++ [op]) := by
  intro before e after heq
  rcases List.eq_nil_or_concat after with rfl | ⟨after, last, rfl⟩
  · obtain ⟨rfl, hlast⟩ := List.append_inj' heq rfl
    rwa [← (List.cons_eq_cons.mp hlast).1]
  · rw [List.concat_eq_append, ← List.cons_append, ← List.append_assoc] at heq
    exact h before e after (List.append_inj' heq rfl).1

theorem SafeIndexRun.of_null {hashes : WalHashes} {ops : List EntryOp} (h : SafeRun hashes ops) :
    SafeIndexRun hashes (ops.map (⟨.null, ·⟩)) := by
  intro before e after heq
  obtain ⟨first, rest, rfl, rfl, hrest⟩ := List.map_eq_append_iff.mp heq
  obtain ⟨op, last, rfl, rfl, rfl⟩ := List.map_eq_cons_iff.mp hrest
  have hunder : opsUnder hashes (hashes.valueHash .null) (first.map (⟨.null, ·⟩)) = first := by
    rw [opsUnder, List.filter_eq_self.mpr, List.map_map]
    · exact List.map_id first
    · intro e' he'
      obtain ⟨op', -, rfl⟩ := List.mem_map.mp he'
      exact beq_self_eq_true _
  rw [hunder]
  exact h first op last rfl

def sharedKeys : Set PrimaryKey := {.int64 7, .string "a", .string "b"}

theorem sharedKeys_injOn : sharedKeys.InjOn PrimaryKey.toStringRepr := by
  rintro _ (rfl | rfl | rfl) _ (rfl | rfl | rfl) heq
  all_goals first | rfl | exact absurd heq (by decide)

/-- The first text goes while the second one keeps their number. -/
def textRemoved : List EntryOp := [.add (.int64 7), .add (.string "a"), .add (.string "b"), .remove (.string "a")]

theorem textRemoved_safe : SafeRun collidingHashes textRemoved := by
  have hnil : SafeRun collidingHashes [] := fun before op after heq => by
    cases List.append_eq_nil_iff.mp heq.symm |>.2
  have hinteger : SafeRun collidingHashes [.add (.int64 7)] := hnil.concat trivial
  have hfirst : SafeRun collidingHashes [.add (.int64 7), .add (.string "a")] := hinteger.concat trivial
  have hadded : SafeRun collidingHashes [.add (.int64 7), .add (.string "a"), .add (.string "b")] :=
    hfirst.concat trivial
  refine SafeRun.concat hadded ⟨?_, ?_⟩
  · intro n hn
    cases hn
  · intro _ _ halone
    exact absurd rfl (halone (.string "b") ⟨[.add (.int64 7), .add (.string "a")], [], rfl, List.not_mem_nil⟩ rfl
      (by decide))

/-- What is left is the integer and the second text, in an entry and in an index. -/
theorem exactSet_of_safe_textRemoved :
    ExactSet collidingHashes sharedKeys (runEntry collidingHashes 0 textRemoved) (held textRemoved) ∧
      ∃ entry ∈ (runIndex collidingHashes "c" (textRemoved.map (⟨.null, ·⟩))).entries.lookup 0,
        ExactSet collidingHashes sharedKeys entry
          (held (opsUnder collidingHashes 0 (textRemoved.map (⟨.null, ·⟩)))) ∧
        [.int64 7, .string "a", .string "b"].map (entry.containsPk collidingHashes) = [true, false, true] := by
  have hkeys : ∀ op ∈ textRemoved, op.pk ∈ sharedKeys := by
    intro op hop
    simp only [textRemoved, List.mem_cons, List.not_mem_nil, or_false] at hop
    rcases hop with rfl | rfl | rfl | rfl
    · exact .inl rfl
    · exact .inr (.inl rfl)
    · exact .inr (.inr rfl)
    · exact .inr (.inl rfl)
  have hindexed : ∀ e ∈ textRemoved.map (⟨.null, ·⟩ : EntryOp → IndexOp), e.op.pk ∈ sharedKeys := by
    intro e he
    obtain ⟨op, hop, rfl⟩ := List.mem_map.mp he
    exact hkeys op hop
  obtain ⟨hentry, hindex⟩ := exactSet_of_safe sharedKeys_injOn
  refine ⟨hentry 0 textRemoved hkeys textRemoved_safe, ?_⟩
  cases hlookup : (runIndex collidingHashes "c" (textRemoved.map (⟨.null, ·⟩))).entries.lookup 0 with
  | none => exact absurd hlookup (by decide)
  | some entry =>
    refine ⟨entry, rfl, (hindex "c" _ hindexed (.of_null textRemoved_safe) 0).2 entry hlookup, ?_⟩
    have hcontains : ((runIndex collidingHashes "c" (textRemoved.map (⟨.null, ·⟩))).entries.lookup 0).map
        (fun entry => [.int64 7, .string "a", .string "b"].map (entry.containsPk collidingHashes)) =
          some [true, false, true] := by decide
    rw [hlookup] at hcontains
    exact Option.some.inj hcontains

/-- Removing the integer hides the text that has its number. Removing the text drops the entry with the integer. -/
theorem not_exactSet : collidingKeys.InjOn PrimaryKey.toStringRepr ∧
    ¬ ExactSet collidingHashes collidingKeys
      (runEntry collidingHashes 0 [.add (.int64 7), .add (.string "a"), .remove (.int64 7)])
      (held [.add (.int64 7), .add (.string "a"), .remove (.int64 7)]) ∧
    (runIndex collidingHashes "c" [⟨.null, .add (.int64 7)⟩, ⟨.null, .add (.string "a")⟩,
      ⟨.null, .remove (.string "a")⟩]).entries.lookup 0 = none ∧
    .int64 7 ∈ held [.add (.int64 7), .add (.string "a"), .remove (.string "a")] := by
  refine ⟨collidingKeys_injOn, fun h => ?_, by decide, [], _, rfl, by decide⟩
  have hheld : .string "a" ∈ held [.add (.int64 7), .add (.string "a"), .remove (.int64 7)] :=
    ⟨[.add (.int64 7)], _, rfl, by decide⟩
  have hcontains := (h.contains (.string "a") (.inr rfl)).mpr hheld
  exact absurd hcontains (by decide)

end Reiver.Pond
