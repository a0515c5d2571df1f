import Nightfall.L4System.Imported
import Mathlib.Data.List.Dedup
import Mathlib.Data.Finset.Card

/-!
# Dry runs of a hash import

A dry run counts against a set read beforehand in slices of 500; a real run
counts the rows that `INSERT OR IGNORE` adds. `Agrees` relates the set to the
table on the hashes of the import, and one hash after the other keeps it.

* `importChunks_agrees`: the two report the same chunks.
* `importChunks_imported`: together the chunks import the hashes that are new,
  once each.
* `dryRun_predicts`: both, with what a real run leaves.
-/
namespace Nightfall.HashImport
open Nightfall.Core Registry

/-! ## The stored hashes -/

theorem hasHashImport_insert_iff (now : String) (rows : List ExternalHashRow) (h h' : String) :
    hasHashImport (insertHashImport now rows h) h' = true ↔
      h' = h ∨ hasHashImport rows h' = true := by
  unfold insertHashImport
  split
  · next hhas =>
    constructor
    · exact .inr
    · rintro (rfl | h')
      · exact hhas
      · exact h'
  · have hrow : hasHashImport [hashImportRow h now] h' = true ↔ h' = h := by
      simp [hasHashImport, hashImportRow, eq_comm]
    rw [← hrow, or_comm]
    simp only [hasHashImport, List.any_append, Bool.or_eq_true]

theorem mem_selectHashImports {rows : List ExternalHashRow} {chunk : List String} {h : String} :
    h ∈ selectHashImports rows chunk ↔ hasHashImport rows h = true ∧ h ∈ chunk := by
  simp only [selectHashImports, hasHashImport, List.mem_map, List.mem_filter, List.any_eq_true,
    decide_eq_true_eq]
  constructor
  · rintro ⟨row, ⟨hrow, ha, hs, halgo, hmem⟩, rfl⟩
    exact ⟨⟨row, hrow, ha, hs, halgo, rfl⟩, hmem⟩
  · rintro ⟨⟨row, hrow, ha, hs, halgo, rfl⟩, hmem⟩
    exact ⟨row, ⟨hrow, ha, hs, halgo, hmem⟩, rfl⟩

theorem flatten_slices {size : Nat} (hsize : 0 < size) : ∀ {fuel : Nat} {hashes : List String},
    hashes.length ≤ fuel → (slices size fuel hashes).flatten = hashes
  | 0, [], _ => rfl
  | fuel + 1, [], _ => rfl
  | fuel + 1, x :: xs, hlen => by
    have hshort : ((x :: xs).drop size).length ≤ fuel := by
      simp only [List.length_drop, List.length_cons] at hlen ⊢
      omega
    rw [slices, List.flatten_cons, flatten_slices hsize hshort, List.take_append_drop]
    simp

/-- The set a dry run starts from is what the table holds of its hashes. -/
theorem mem_fetchExistingHashImportHashes {r : Registry} {hashes : List String} {h : String} :
    h ∈ fetchExistingHashImportHashes r hashes ↔
      hasHashImport r.externalHashCache h = true ∧ h ∈ hashes := by
  have hflat := flatten_slices (show 0 < 500 by decide)
    (le_refl (hashes.dedup.insertionSort fun a b => decide (a ≤ b)).length)
  have hmem : h ∈ hashes ↔ ∃ chunk ∈ slices 500
      (hashes.dedup.insertionSort fun a b => decide (a ≤ b)).length
      (hashes.dedup.insertionSort fun a b => decide (a ≤ b)), h ∈ chunk := by
    rw [← List.mem_flatten, hflat, List.mem_insertionSort, List.mem_dedup]
  simp only [fetchExistingHashImportHashes, List.mem_flatMap, mem_selectHashImports]
  rw [hmem]
  constructor
  · rintro ⟨chunk, hc, hhas, hin⟩
    exact ⟨hhas, chunk, hc, hin⟩
  · rintro ⟨hhas, chunk, hc, hin⟩
    exact ⟨chunk, hc, hhas, hin⟩

/-! ## One hash, one chunk, all chunks -/

/-- On the hashes of the import, the set is what the table holds. -/
def Agrees (hashes seen : List String) (rows : List ExternalHashRow) : Prop :=
  ∀ h ∈ hashes, h ∈ seen ↔ hasHashImport rows h = true

/-- One hash counts alike on both sides. -/
theorem simulateHash_agrees {hashes : List String} {s : Simulated} {rows : List ExternalHashRow}
    {hash : String} (now : String) (hmem : hash ∈ hashes) (hs : Agrees hashes s.simulatedSeen rows) :
    Agrees hashes (simulateHash s hash).simulatedSeen (insertHashImport now rows hash) ∧
      (insertHashImport now rows hash).length + s.imported =
        rows.length + (simulateHash s hash).imported ∧
      (simulateHash s hash).imported + (simulateHash s hash).skippedExisting =
        s.imported + s.skippedExisting + 1 := by
  have hhash := hs hash hmem
  by_cases hseen : hash ∈ s.simulatedSeen
  · have hrow := hhash.mp hseen
    simp only [simulateHash, if_pos hseen, insertHashImport, if_pos hrow]
    exact ⟨hs, trivial, by omega⟩
  · have hrow : ¬ hasHashImport rows hash = true := fun h => hseen (hhash.mpr h)
    refine ⟨fun h hh => ?_, ?_, ?_⟩
    · rw [hasHashImport_insert_iff, ← hs h hh, simulateHash, if_neg hseen, List.mem_cons]
    · simp only [simulateHash, if_neg hseen, insertHashImport, if_neg hrow, List.length_append,
        List.length_singleton]
      omega
    · simp only [simulateHash, if_neg hseen]
      omega

theorem simulateChunk_agrees {hashes : List String} (now : String) (chunk : List String)
    (hsub : ∀ h ∈ chunk, h ∈ hashes) (s : Simulated) (rows : List ExternalHashRow)
    (hs : Agrees hashes s.simulatedSeen rows) :
    Agrees hashes (chunk.foldl simulateHash s).simulatedSeen
        (chunk.foldl (insertHashImport now) rows) ∧
      (chunk.foldl (insertHashImport now) rows).length + s.imported =
        rows.length + (chunk.foldl simulateHash s).imported ∧
      (chunk.foldl simulateHash s).imported + (chunk.foldl simulateHash s).skippedExisting =
        s.imported + s.skippedExisting + chunk.length := by
  induction chunk generalizing s rows with
  | nil => exact ⟨hs, rfl, rfl⟩
  | cons hash chunk ih =>
    obtain ⟨hstep, hlen, hcount⟩ := simulateHash_agrees now (hsub hash List.mem_cons_self) hs
    obtain ⟨hrest, hlen', hcount'⟩ := ih (fun h hh => hsub h (List.mem_cons_of_mem _ hh)) _ _ hstep
    simp only [List.foldl_cons, List.length_cons]
    refine ⟨hrest, ?_, ?_⟩
    · omega
    · omega

theorem importChunks_agrees (env : Env) {hashes : List String} :
    ∀ (chunks : List (List String)) (index : Nat) (seen : List String) (w : World),
      (∀ chunk ∈ chunks, ∀ h ∈ chunk, h ∈ hashes) →
      Agrees hashes seen w.reg.externalHashCache →
      simulateChunks index chunks seen = (importChunks env index chunks w).1
  | [], _, _, _, _, _ => rfl
  | chunk :: chunks, index, seen, w, hsub, hagree => by
    obtain ⟨hnext, hlen, hcount⟩ := simulateChunk_agrees (env.clock w.ticks).iso chunk
      (hsub chunk List.mem_cons_self) ⟨0, 0, seen⟩ w.reg.externalHashCache hagree
    have hrest := importChunks_agrees env chunks (index + 1) _
      { w with
        reg := (w.reg.bulkInsertHashImport chunk (env.clock w.ticks).iso).1
        ticks := w.ticks + 1 } (fun c hc => hsub c (List.mem_cons_of_mem _ hc)) hnext
    simp only at hlen hcount
    simp only [simulateChunks, importChunks, hrest, bulkInsertHashImport, List.cons.injEq,
      HashImportChunkResult.mk.injEq, true_and, and_true]
    exact ⟨by omega, by omega⟩

/-! ## The total -/

/-- The distinct hashes that the table does not hold. -/
def newHashes (rows : List ExternalHashRow) (hashes : List String) : Finset String :=
  hashes.toFinset.filter fun h => ¬ hasHashImport rows h = true

theorem mem_newHashes {rows : List ExternalHashRow} {hashes : List String} {h : String} :
    h ∈ newHashes rows hashes ↔ h ∈ hashes ∧ ¬ hasHashImport rows h = true := by
  simp [newHashes]

/-- Inserting adds a row to the end, or nothing. -/
theorem prefix_insert (now : String) (rows : List ExternalHashRow) (h : String) :
    rows <+: insertHashImport now rows h := by
  unfold insertHashImport
  split
  · exact List.prefix_refl _
  · exact List.prefix_append _ _

theorem prefix_foldl (now : String) (hashes : List String) (rows : List ExternalHashRow) :
    rows <+: hashes.foldl (insertHashImport now) rows := by
  induction hashes generalizing rows with
  | nil => exact List.prefix_refl _
  | cons h hashes ih => exact (prefix_insert now rows h).trans (ih _)

theorem newHashes_cons_of_has {rows : List ExternalHashRow} {h : String} (hashes : List String)
    (hhas : hasHashImport rows h = true) : newHashes rows (h :: hashes) = newHashes rows hashes := by
  ext x
  simp only [mem_newHashes, List.mem_cons]
  constructor
  · rintro ⟨rfl | hx, hnot⟩
    · exact absurd hhas hnot
    · exact ⟨hx, hnot⟩
  · rintro ⟨hx, hnot⟩
    exact ⟨.inr hx, hnot⟩

theorem newHashes_cons_of_not (now : String) {rows : List ExternalHashRow} {h : String}
    (hashes : List String) (hnot : ¬ hasHashImport rows h = true) :
    newHashes rows (h :: hashes) = insert h (newHashes (insertHashImport now rows h) hashes) := by
  ext x
  simp only [Finset.mem_insert, mem_newHashes, List.mem_cons, hasHashImport_insert_iff, not_or]
  by_cases hx : x = h
  · subst hx; simp [hnot]
  · simp [hx]

/-- A chunk adds a row for each of its new hashes. -/
theorem length_foldl_insert (now : String) (hashes : List String) (rows : List ExternalHashRow) :
    (hashes.foldl (insertHashImport now) rows).length =
      rows.length + (newHashes rows hashes).card := by
  induction hashes generalizing rows with
  | nil => simp [newHashes]
  | cons h hashes ih =>
    rw [List.foldl_cons, ih]
    by_cases hhas : hasHashImport rows h = true
    · rw [newHashes_cons_of_has hashes hhas, insertHashImport, if_pos hhas]
    · have hnew : h ∉ newHashes (insertHashImport now rows h) hashes := fun hmem =>
        (mem_newHashes.mp hmem).2 ((hasHashImport_insert_iff ..).mpr (.inl rfl))
      rw [newHashes_cons_of_not now hashes hhas, Finset.card_insert_of_notMem hnew,
        insertHashImport, if_neg hhas]
      simp only [List.length_append, List.length_singleton]
      omega

theorem hasHashImport_foldl_iff (now : String) (hashes : List String)
    (rows : List ExternalHashRow) (h : String) :
    hasHashImport (hashes.foldl (insertHashImport now) rows) h = true ↔
      h ∈ hashes ∨ hasHashImport rows h = true := by
  induction hashes generalizing rows with
  | nil => simp
  | cons x hashes ih =>
    rw [List.foldl_cons, ih, hasHashImport_insert_iff, List.mem_cons, or_left_comm, or_assoc]

theorem newHashes_append (now : String) (rows : List ExternalHashRow) (hashes rest : List String) :
    (newHashes rows (hashes ++ rest)).card = (newHashes rows hashes).card +
      (newHashes (hashes.foldl (insertHashImport now) rows) rest).card := by
  have hunion : newHashes rows (hashes ++ rest) =
      newHashes rows hashes ∪ newHashes (hashes.foldl (insertHashImport now) rows) rest := by
    ext x
    simp only [Finset.mem_union, mem_newHashes, List.mem_append, hasHashImport_foldl_iff, not_or]
    tauto
  have hdisjoint : Disjoint (newHashes rows hashes)
      (newHashes (hashes.foldl (insertHashImport now) rows) rest) := by
    rw [Finset.disjoint_left]
    intro x hx hx'
    exact (mem_newHashes.mp hx').2
      ((hasHashImport_foldl_iff ..).mpr (.inl (mem_newHashes.mp hx).1))
  rw [hunion, Finset.card_union_of_disjoint hdisjoint]

/-- The chunks import every new hash once, and behind the rows that were there. -/
theorem importChunks_imported (env : Env) : ∀ (chunks : List (List String)) (index : Nat)
    (w : World),
    ((importChunks env index chunks w).1.map (·.imported)).sum =
        (newHashes w.reg.externalHashCache chunks.flatten).card ∧
      w.reg.externalHashCache <+: (importChunks env index chunks w).2.reg.externalHashCache
  | [], _, w => ⟨by simp [importChunks, newHashes], List.prefix_refl _⟩
  | chunk :: chunks, index, w => by
    obtain ⟨hsum, hprefix⟩ := importChunks_imported env chunks (index + 1)
      { w with
        reg := (w.reg.bulkInsertHashImport chunk (env.clock w.ticks).iso).1
        ticks := w.ticks + 1 }
    refine ⟨?_, (prefix_foldl _ chunk _).trans hprefix⟩
    have hlen := length_foldl_insert (env.clock w.ticks).iso chunk w.reg.externalHashCache
    simp only [importChunks, List.map_cons, List.sum_cons, List.flatten_cons,
      newHashes_append (env.clock w.ticks).iso]
    rw [hsum]
    simp only [bulkInsertHashImport, hlen]
    omega

/-- A hash the table holds is not imported again. -/
theorem importChunks_again (env : Env) : ∀ (chunks : List (List String)) (index : Nat) (w : World),
    (∀ chunk ∈ chunks, ∀ h ∈ chunk, hasHashImport w.reg.externalHashCache h = true) →
    (∀ result ∈ (importChunks env index chunks w).1, result.imported = 0) ∧
      (importChunks env index chunks w).2.reg.externalHashCache = w.reg.externalHashCache
  | [], _, w, _ => ⟨by simp [importChunks], rfl⟩
  | chunk :: chunks, index, w, hhas => by
    have hsame : chunk.foldl (insertHashImport (env.clock w.ticks).iso) w.reg.externalHashCache =
        w.reg.externalHashCache := by
      refine ((prefix_foldl _ chunk _).eq_of_length ?_).symm
      rw [length_foldl_insert]
      have hnone : newHashes w.reg.externalHashCache chunk = ∅ := by
        rw [Finset.eq_empty_iff_forall_notMem]
        intro h hmem
        obtain ⟨hin, hnot⟩ := mem_newHashes.mp hmem
        exact hnot (hhas chunk List.mem_cons_self h hin)
      simp [hnone]
    obtain ⟨hzero, hrows⟩ := importChunks_again env chunks (index + 1)
      { w with
        reg := (w.reg.bulkInsertHashImport chunk (env.clock w.ticks).iso).1
        ticks := w.ticks + 1 } fun c hc h hh => by
          simp only [bulkInsertHashImport, hsame]
          exact hhas c (List.mem_cons_of_mem _ hc) h hh
    refine ⟨?_, ?_⟩
    · simp only [importChunks, List.forall_mem_cons]
      refine ⟨?_, hzero⟩
      simp only [bulkInsertHashImport, hsame, Nat.sub_self]
    · simp only [importChunks]
      rw [hrows]
      exact hsame

/-- A dry run reports chunk by chunk what the real run does; that imports the
distinct new hashes whatever the chunk size, leaves the rows that were there, and
finds nothing to import when it is run again. -/
theorem dryRun_predicts (env : Env) (w : World) (hashes : List String) (chunkSize : Int)
    (hsize : 0 < chunkSize) :
    ∃ results w', executeHashImportChunks env hashes chunkSize w = (.ok results, w') ∧
      dryRunHashImportChunks hashes chunkSize w.reg = .ok results ∧
      (results.map (·.imported)).sum = (newHashes w.reg.externalHashCache hashes).card ∧
      w.reg.externalHashCache <+: w'.reg.externalHashCache ∧
      ∀ chunkSize' : Int, 0 < chunkSize' → ∃ results' w'',
        executeHashImportChunks env hashes chunkSize' w' = (.ok results', w'') ∧
          (∀ result ∈ results', result.imported = 0) ∧
          w''.reg.externalHashCache = w'.reg.externalHashCache := by
  have hpos : ∀ size : Int, 0 < size → ¬ size ≤ 0 ∧ 0 < size.toNat := by
    intro size h
    omega
  have hflat : ∀ size : Int, 0 < size →
      (slices size.toNat hashes.length hashes).flatten = hashes :=
    fun size h => flatten_slices (hpos size h).2 (le_refl _)
  have hmem : ∀ size : Int, 0 < size → ∀ chunk ∈ slices size.toNat hashes.length hashes,
      ∀ h ∈ chunk, h ∈ hashes := by
    intro size hs chunk hc h hh
    rw [← hflat size hs]
    exact List.mem_flatten.mpr ⟨chunk, hc, hh⟩
  obtain ⟨hsum, hprefix⟩ := importChunks_imported env
    (slices chunkSize.toNat hashes.length hashes) 1 w
  rw [hflat chunkSize hsize] at hsum
  obtain ⟨-, hall⟩ := importChunks_spec env (slices chunkSize.toNat hashes.length hashes) 1 w
  refine ⟨_, _, ?_, ?_, hsum, hprefix, fun chunkSize' hsize' => ?_⟩
  · rw [executeHashImportChunks, if_neg (hpos chunkSize hsize).1]
  · rw [dryRunHashImportChunks, if_neg (hpos chunkSize hsize).1]
    cases hashes with
    | nil => rfl
    | cons x xs =>
      rw [if_neg (by simp)]
      refine congrArg Except.ok (importChunks_agrees env _ 1 _ w (hmem chunkSize hsize) ?_)
      intro h hh
      rw [mem_fetchExistingHashImportHashes]
      simp [hh]
  · have hagain := importChunks_again env (slices chunkSize'.toNat hashes.length hashes) 1
      (importChunks env 1 (slices chunkSize.toNat hashes.length hashes) w).2
      fun chunk hc h hh => hall h (.inr (by
        rw [← List.mem_flatten, hflat chunkSize hsize]
        exact hmem chunkSize' hsize' chunk hc h hh))
    refine ⟨_, _, ?_, hagain.1, hagain.2⟩
    rw [executeHashImportChunks, if_neg (hpos chunkSize' hsize').1]

/-- Three hashes in chunks of two, the last a duplicate. -/
theorem dryRun_of_three : (0 : Int) < 2 ∧ ∃ w',
    executeHashImportChunks sampleEnv ["a", "b", "a"] 2 (sampleWorld [] .empty) =
        (.ok [⟨1, 2, 0⟩, ⟨2, 0, 1⟩], w') ∧
      dryRunHashImportChunks ["a", "b", "a"] 2 (sampleWorld [] .empty).reg =
        .ok [⟨1, 2, 0⟩, ⟨2, 0, 1⟩] := by
  obtain ⟨results, w', hreal, hdry, -⟩ :=
    dryRun_predicts sampleEnv (sampleWorld [] .empty) ["a", "b", "a"] 2 (by decide)
  have hresults : (executeHashImportChunks sampleEnv ["a", "b", "a"] 2
      (sampleWorld [] .empty)).1 = .ok [⟨1, 2, 0⟩, ⟨2, 0, 1⟩] := by decide +kernel
  rw [hreal, Except.ok.injEq] at hresults
  subst hresults
  exact ⟨by decide, w', hreal, hdry⟩

end Nightfall.HashImport
