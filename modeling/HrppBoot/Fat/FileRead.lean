import HrppBoot.Fat.Contents

/-!
# Reading a file

A file is the concatenation of the clusters of its chain. `getCluster_spec` says what one call of
`get_cluster` reads, for both branches of it; `findRun_spec` splits the chain into the run that
`get_contents` reads at once and the rest; the loop and `getContents_reads` follow the chain.
-/

namespace HrppBoot.Fat

open ByteMemory

theorem store_load_append (memory volume : Memory) (buffer address n k : Nat) :
    (memory.store buffer (volume.load address n)).store (buffer + n) (volume.load (address + n) k) =
      memory.store buffer (volume.load address (n + k)) := by
  rw [← Memory.load_append, ← Memory.store_append, Memory.length_load]

/-- The variables of `get_cluster` when all whole sectors are read. -/
def Cursor.wholeSectors (cursor : Cursor) (sectSize : Nat) (volume : Memory) : Cursor where
  startsect := cursor.startsect + cursor.size / sectSize
  buffer := cursor.buffer + cursor.size / sectSize * sectSize
  size := cursor.size % sectSize
  memory := cursor.memory.store cursor.buffer
    (volume.load (cursor.startsect * sectSize) (cursor.size / sectSize * sectSize))

section Cluster

variable {disk : DiskRead} {volume : Memory} {mydata : Fsdata}
  (reads : Reads disk mydata.sectSize volume)
include reads

theorem read_sector (sector size : Nat) (part : size ≤ mydata.sectSize) :
    (disk sector 1).1 = 1 ∧
      (disk sector 1).2.take size = volume.load (sector * mydata.sectSize) size := by
  rw [reads]
  refine ⟨rfl, ?_⟩
  rw [Memory.take_load, Nat.one_mul, Nat.min_eq_left part]

/-- The loop for a misaligned buffer reads all whole sectors. -/
theorem readSectors_spec (cursor : Cursor)
    (addressable : cursor.startsect + cursor.size / mydata.sectSize < 2 ^ 32) :
    readSectors disk mydata cursor =
      (true, cursor.wholeSectors mydata.sectSize volume) := by
  have positive := mydata.sector
  generalize measure : cursor.size = n
  induction n using Nat.strong_induction_on generalizing cursor with
  | _ n ih =>
    subst measure
    rw [readSectors]
    by_cases more : mydata.sectSize ≤ cursor.size
    · obtain ⟨returned, sector⟩ := read_sector reads cursor.startsect mydata.sectSize (Nat.le_refl _)
      have quotient : cursor.size / mydata.sectSize =
          (cursor.size - mydata.sectSize) / mydata.sectSize + 1 :=
        Nat.div_eq_sub_div positive more
      have remainder : cursor.size % mydata.sectSize =
          (cursor.size - mydata.sectSize) % mydata.sectSize := Nat.mod_eq_sub_mod more
      have one : 0 < cursor.size / mydata.sectSize := Nat.div_pos more positive
      have next : (cursor.startsect + 1) % 2 ^ 32 = cursor.startsect + 1 :=
        Nat.mod_eq_of_lt (by omega)
      have rest := ih (cursor.size - mydata.sectSize) (by omega)
        ⟨cursor.startsect + 1, cursor.buffer + mydata.sectSize, cursor.size - mydata.sectSize,
          cursor.memory.store cursor.buffer
            (volume.load (cursor.startsect * mydata.sectSize) mydata.sectSize)⟩
        (by simp only; omega) rfl
      simp only [Cursor.wholeSectors, Nat.add_mul, Nat.one_mul, store_load_append] at rest ⊢
      simp only [more, ↓reduceDIte, returned, sector, next, ne_eq, not_true_eq_false, ↓reduceIte,
        rest, quotient, remainder, Nat.add_mul, Nat.one_mul]
      simp only [Nat.add_comm, Nat.add_left_comm, Nat.add_assoc]
    · have below : cursor.size < mydata.sectSize := by omega
      simp only [Cursor.wholeSectors, more, ↓reduceDIte, Nat.div_eq_of_lt below,
        Nat.mod_eq_of_lt below, Nat.zero_mul,
        Nat.add_zero, Memory.load, List.range_zero, List.map_nil, Memory.store_nil]

theorem readWhole_spec (cursor : Cursor)
    (addressable : cursor.startsect + cursor.size / mydata.sectSize < 2 ^ 32) :
    readWhole disk mydata cursor =
      (true, cursor.wholeSectors mydata.sectSize volume) := by
  have next : (cursor.startsect + cursor.size / mydata.sectSize) % 2 ^ 32 =
      cursor.startsect + cursor.size / mydata.sectSize := Nat.mod_eq_of_lt addressable
  have rest : cursor.size - cursor.size / mydata.sectSize * mydata.sectSize =
      cursor.size % mydata.sectSize := by
    have split := Nat.div_add_mod' cursor.size mydata.sectSize
    omega
  simp only [Cursor.wholeSectors, readWhole, reads cursor.startsect, ne_eq, not_true_eq_false,
    ↓reduceIte, next, rest]

theorem getCluster_spec {clustnum : Nat} (buffer size : Nat) (memory : Memory)
    (addressable : mydata.clusterSect clustnum + size / mydata.sectSize < 2 ^ 32) :
    getCluster disk mydata clustnum buffer size memory = (true, memory.store buffer
      (volume.load (mydata.clusterSect clustnum * mydata.sectSize) size)) := by
  have whole : (if buffer % archDmaMinalign ≠ 0 then
      readSectors disk mydata ⟨mydata.clusterSect clustnum, buffer, size, memory⟩
      else readWhole disk mydata ⟨mydata.clusterSect clustnum, buffer, size, memory⟩) =
        (true, Cursor.wholeSectors ⟨mydata.clusterSect clustnum, buffer, size, memory⟩
          mydata.sectSize volume) := by
    split
    · exact readSectors_spec reads _ addressable
    · exact readWhole_spec reads _ addressable
  have split := Nat.div_add_mod' size mydata.sectSize
  have part : size % mydata.sectSize ≤ mydata.sectSize := (Nat.mod_lt _ mydata.sector).le
  simp only [getCluster, whole, Cursor.wholeSectors]
  by_cases tail : size % mydata.sectSize = 0
  · rw [tail, Nat.add_zero] at split
    simp [tail, split]
  · obtain ⟨returned, sector⟩ := read_sector reads
      (mydata.clusterSect clustnum + size / mydata.sectSize) _ part
    simp only [Bool.not_true, Bool.false_eq_true, ↓reduceIte, ne_eq, tail, not_false_eq_true,
      returned, not_true_eq_false, sector, Nat.add_mul, store_load_append, split]

end Cluster

/-! ## Chains -/

/-- A chain of clusters on a volume. -/
structure ValidChain (volume : Memory) (mydata : Fsdata) (clusters : List Nat) : Prop where
  linked : clusters.IsChain fun clust next => fatEntry volume mydata clust = next
  inRange : ∀ clust ∈ clusters, checkClust clust mydata.fatsize = false
  hasEntry : ∀ clust ∈ clusters, mydata.HasEntry clust
  begins : ∀ clust ∈ clusters, 0 ≤ mydata.dataBegin + clust * mydata.clustSize
  ends : ∀ clust ∈ clusters, mydata.dataBegin + (clust + 1) * mydata.clustSize < 2 ^ 32

/-- The bytes of a cluster. -/
def clusterBytes (volume : Memory) (mydata : Fsdata) (clust : Nat) : List UInt8 :=
  volume.load (mydata.clusterSect clust * mydata.sectSize) mydata.bytesperclust

/-- The bytes of the clusters of a chain, one after the other. -/
def chainBytes (volume : Memory) (mydata : Fsdata) (clusters : List Nat) : List UInt8 :=
  clusters.flatMap (clusterBytes volume mydata)

section Chain

variable {volume : Memory} {mydata : Fsdata}

@[simp]
theorem length_chainBytes (clusters : List Nat) :
    (chainBytes volume mydata clusters).length = clusters.length * mydata.bytesperclust := by
  induction clusters with
  | nil => simp [chainBytes]
  | cons clust clusters ih =>
    unfold chainBytes at ih ⊢
    rw [List.flatMap_cons, List.length_append, ih, clusterBytes, Memory.length_load,
      List.length_cons, Nat.add_mul, Nat.one_mul, Nat.add_comm]

theorem chainBytes_append (first second : List Nat) :
    chainBytes volume mydata (first ++ second) =
      chainBytes volume mydata first ++ chainBytes volume mydata second :=
  List.flatMap_append ..

theorem ValidChain.of_append {first second : List Nat}
    (chain : ValidChain volume mydata (first ++ second)) : ValidChain volume mydata second where
  linked := (List.isChain_append.mp chain.linked).2.1
  inRange := fun clust member => chain.inRange clust (List.mem_append_right _ member)
  hasEntry := fun clust member => chain.hasEntry clust (List.mem_append_right _ member)
  begins := fun clust member => chain.begins clust (List.mem_append_right _ member)
  ends := fun clust member => chain.ends clust (List.mem_append_right _ member)

variable {clust count : Nat} {rest : List Nat}

theorem ValidChain.tail (chain : ValidChain volume mydata (clust :: rest))
    : ValidChain volume mydata rest := by
  rw [← List.singleton_append] at chain
  exact chain.of_append

theorem clust_bounds {fatsize : FatSize} (inRange : checkClust clust fatsize = false) :
    2 ≤ clust ∧ clust < 2 ^ 32 - 1 := by
  unfold checkClust at inRange
  cases fatsize <;> simp at inRange <;> omega

theorem ValidChain.clusterSect {clusters : List Nat} (chain : ValidChain volume mydata clusters)
    (member : clust ∈ clusters) :
    (mydata.clusterSect clust : Int) = mydata.dataBegin + clust * mydata.clustSize := by
  have bounds := clust_bounds (chain.inRange clust member)
  have low := chain.begins clust member
  have high := chain.ends clust member
  have positive : 0 < clust := by omega
  have next : ((clust : Int) + 1) * mydata.clustSize = clust * mydata.clustSize + mydata.clustSize := by
    ring
  rw [Fsdata.clusterSect, if_pos positive, Int.emod_eq_of_lt low (by omega),
    Int.toNat_of_nonneg low]

theorem ValidChain.clusterSect_run {i : Nat}
    (chain : ValidChain volume mydata (List.range' clust count ++ rest)) (inside : i < count) :
    mydata.clusterSect (clust + i) = mydata.clusterSect clust + i * mydata.clustSize := by
  have first := chain.clusterSect (List.mem_append_left rest
    (List.mem_range'_1.mpr (show clust ≤ clust ∧ clust < clust + count by omega)))
  have own := chain.clusterSect (List.mem_append_left rest
    (List.mem_range'_1.mpr (show clust ≤ clust + i ∧ clust + i < clust + count by omega)))
  have split : ((clust + i : Nat) : Int) * mydata.clustSize =
      clust * mydata.clustSize + (i * mydata.clustSize : Nat) := by
    push_cast
    ring
  omega

theorem ValidChain.chainBytes_run
    (chain : ValidChain volume mydata (List.range' clust count ++ rest)) :
    chainBytes volume mydata (List.range' clust count) =
      volume.load (mydata.clusterSect clust * mydata.sectSize) (count * mydata.bytesperclust) := by
  induction count generalizing rest with
  | zero => simp [chainBytes, Memory.load]
  | succ count ih =>
    have concat : List.range' clust (count + 1) = List.range' clust count ++ [clust + count] := by
      simp [List.range'_concat]
    have sector := chain.clusterSect_run (show count < count + 1 by omega)
    rw [concat, List.append_assoc] at chain
    have single : chainBytes volume mydata [clust + count] =
        volume.load (mydata.clusterSect clust * mydata.sectSize + count * mydata.bytesperclust)
          mydata.bytesperclust := by
      simp only [chainBytes, List.flatMap_cons, List.flatMap_nil, List.append_nil, clusterBytes,
        sector, Fsdata.bytesperclust]
      congr 1
      ring
    rw [concat, chainBytes_append, ih chain, single, Memory.load_append, Nat.add_mul, Nat.one_mul]

theorem ValidChain.addressable {size : Nat}
    (chain : ValidChain volume mydata (List.range' clust count ++ rest)) (positive : 0 < count)
    (short : size ≤ count * mydata.bytesperclust) :
    mydata.clusterSect clust + size / mydata.sectSize < 2 ^ 32 := by
  have first := chain.clusterSect (List.mem_append_left rest
    (List.mem_range'_1.mpr (show clust ≤ clust ∧ clust < clust + count by omega)))
  have last := chain.ends (clust + count - 1) (List.mem_append_left rest
    (List.mem_range'_1.mpr (by omega)))
  have sectors : size / mydata.sectSize ≤ count * mydata.clustSize := by
    apply Nat.div_le_of_le_mul
    calc size ≤ count * (mydata.clustSize * mydata.sectSize) := short
      _ = mydata.sectSize * (count * mydata.clustSize) := by ring
  have split : (((clust + count - 1 : Nat) : Int) + 1) * mydata.clustSize =
      clust * mydata.clustSize + (count * mydata.clustSize : Nat) := by
    rw [show ((clust + count - 1 : Nat) : Int) + 1 = clust + count by omega]
    push_cast
    ring
  omega

end Chain

section Follow

variable {disk : DiskRead} {volume : Memory} {mydata : Fsdata} [mydata.Clustered]
  (reads : Reads disk mydata.sectSize volume) (even : 2 ∣ mydata.sectSize)
include reads even

variable {cache : FatCache} {clust filesize : Nat} {rest : List Nat}

omit [mydata.Clustered] in
theorem getFatent_next (coherent : Coherent volume mydata cache) {next : Nat}
    (chain : ValidChain volume mydata (clust :: next :: rest)) :
    ∃ after, getFatent disk mydata cache clust = (next, after) ∧ Coherent volume mydata after ∧
      checkClust next mydata.fatsize = false := by
  obtain ⟨after, read, coherent'⟩ :=
    getFatent_spec reads even coherent (chain.hasEntry clust (List.mem_cons_self ..))
  rw [(List.isChain_cons_cons.mp chain.linked).1] at read
  exact ⟨after, read, coherent', chain.inRange next (by simp)⟩

/-- The search for consecutive clusters ends at the end of the file, or at the end of the run. -/
theorem findRun_spec (coherent : Coherent volume mydata cache)
    (chain : ValidChain volume mydata (clust :: rest)) {actsize : Nat}
    (enough : filesize ≤ actsize + rest.length * mydata.bytesperclust) :
    ∃ count rest' after, rest = List.range' (clust + 1) count ++ rest' ∧
      Coherent volume mydata after ∧
      ((filesize ≤ actsize + count * mydata.bytesperclust ∧
          findRun disk mydata cache clust actsize filesize = (after, .remaining)) ∨
        (actsize + count * mydata.bytesperclust < filesize ∧
          ValidChain volume mydata ((clust + count) :: rest') ∧
          findRun disk mydata cache clust actsize filesize =
            (after, .getit (clust + count) (actsize + count * mydata.bytesperclust)))) := by
  induction rest generalizing cache clust actsize with
  | nil =>
    refine ⟨0, [], cache, rfl, coherent, .inl ⟨by simpa using enough, ?_⟩⟩
    rw [findRun, dif_neg (by simpa using enough)]
  | cons next rest ih =>
    by_cases more : actsize < filesize
    · obtain ⟨after, read, coherent', valid⟩ := getFatent_next reads even coherent chain
      have bounds := clust_bounds valid
      have own := clust_bounds (chain.inRange clust (List.mem_cons_self ..))
      rw [findRun, dif_pos more, read]
      by_cases consecutive : next = clust + 1
      · have pred : UInt32.ofNat next - 1 = UInt32.ofNat clust := by
          rw [consecutive, UInt32.ofNat_add]
          exact UInt32.add_sub_cancel ..
        have further : filesize ≤
            actsize + mydata.bytesperclust + rest.length * mydata.bytesperclust := by
          simp only [List.length_cons, Nat.add_mul, Nat.one_mul] at enough
          omega
        obtain ⟨count, rest', last, split, coherentLast, ends⟩ := ih coherent' chain.tail further
        have size : actsize + (count + 1) * mydata.bytesperclust =
            actsize + mydata.bytesperclust + count * mydata.bytesperclust := by ring
        have number : clust + (count + 1) = next + count := by omega
        refine ⟨count + 1, rest', last, ?_, coherentLast, ?_⟩
        · rw [List.range'_succ, List.cons_append, split, consecutive]
        · simpa only [pred, ne_eq, not_true_eq_false, ↓reduceIte, valid, Bool.false_eq_true, size,
            number] using ends
      · have apart : UInt32.ofNat next - 1 ≠ UInt32.ofNat clust := by
          intro same
          have values := congrArg UInt32.toNat same
          rw [UInt32.toNat_sub_of_le _ _ (by
            rw [UInt32.le_iff_toNat_le, UInt32.toNat_ofNat']
            simp
            omega)] at values
          simp at values
          omega
        refine ⟨0, next :: rest, after, rfl, coherent', .inr ⟨by simpa using more, chain, ?_⟩⟩
        simp [apart]
    · refine ⟨0, next :: rest, cache, rfl, coherent, .inl ⟨by omega, ?_⟩⟩
      rw [findRun, dif_neg more]

omit even [mydata.Clustered] in
theorem getCluster_run {count size : Nat}
    (chain : ValidChain volume mydata (List.range' clust count ++ rest)) (positive : 0 < count)
    (short : size ≤ count * mydata.bytesperclust) (range : size < 2 ^ 32) (buffer : Nat)
    (memory : Memory) :
    getCluster disk mydata clust buffer (size % 2 ^ 32) memory = (true,
      memory.store buffer ((chainBytes volume mydata (List.range' clust count)).take size)) := by
  rw [Nat.mod_eq_of_lt range, getCluster_spec reads _ _ _ (chain.addressable positive short),
    chain.chainBytes_run, Memory.take_load, Nat.min_eq_left short]

omit reads even in
theorem readRuns_remaining {after : FatCache} {buffer : Nat} {gotsize : Int}
    {memory memory' : Memory}
    (found : findRun disk mydata cache clust mydata.bytesperclust filesize = (after, .remaining))
    (read : getCluster disk mydata clust buffer (filesize % 2 ^ 32) memory = (true, memory')) :
    readRuns disk mydata cache clust filesize buffer gotsize memory =
      ⟨0, gotsize + filesize, after, memory'⟩ := by
  rw [readRuns]
  split
  · rename_i other
    cases found.symm.trans other
  · rename_i same
    cases found.symm.trans same
    simp only [read, Bool.not_true, Bool.false_eq_true, ↓reduceIte]
  · rename_i other
    cases found.symm.trans other

omit reads even in
theorem readRuns_getit {after cache' : FatCache} {buffer last size next : Nat}
    {gotsize : Int} {memory memory' : Memory}
    (found : findRun disk mydata cache clust mydata.bytesperclust filesize =
      (after, .getit last size))
    (range : size < 2 ^ 31)
    (read : getCluster disk mydata clust buffer (size % 2 ^ 32) memory = (true, memory'))
    (link : getFatent disk mydata after last = (next, cache'))
    (valid : checkClust next mydata.fatsize = false) :
    readRuns disk mydata cache clust filesize buffer gotsize memory =
      readRuns disk mydata cache' next (filesize - size) (buffer + size) (gotsize + size) memory' := by
  have int : Int.bmod size (2 ^ 32) = size := Int.bmod_eq_of_le (by omega) (by omega)
  rw [readRuns]
  split
  · rename_i other
    cases found.symm.trans other
  · rename_i other
    cases found.symm.trans other
  · rename_i same
    cases found.symm.trans same
    simp only [read, link, valid, int, Bool.not_true, Bool.false_eq_true, ↓reduceIte]

/-- The loop reads the first `filesize` bytes of the chain. -/
theorem readRuns_spec (coherent : Coherent volume mydata cache)
    (chain : ValidChain volume mydata (clust :: rest))
    (enough : filesize ≤ (clust :: rest).length * mydata.bytesperclust) (range : filesize < 2 ^ 31)
    (buffer : Nat) (gotsize : Int) (memory : Memory) :
    ∃ after, Coherent volume mydata after ∧
      readRuns disk mydata cache clust filesize buffer gotsize memory =
        ⟨0, gotsize + filesize, after, memory.store buffer
          ((chainBytes volume mydata (clust :: rest)).take filesize)⟩ := by
  generalize measure : filesize = n
  induction n using Nat.strong_induction_on generalizing cache clust rest filesize buffer gotsize
    memory with
  | _ n ih =>
    subst measure
    have beyond : filesize ≤ mydata.bytesperclust + rest.length * mydata.bytesperclust := by
      simpa [Nat.add_mul, Nat.add_comm] using enough
    obtain ⟨count, rest', after, split, coherent', ends⟩ :=
      findRun_spec reads even coherent chain beyond
    have size : mydata.bytesperclust + count * mydata.bytesperclust =
        (count + 1) * mydata.bytesperclust := by ring
    have whole : clust :: rest = List.range' clust (count + 1) ++ rest' := by
      rw [List.range'_succ, List.cons_append, split]
    rw [whole] at chain
    have length : (chainBytes volume mydata (List.range' clust (count + 1))).length =
        (count + 1) * mydata.bytesperclust := by simp
    rcases ends with ⟨short, found⟩ | ⟨long, next, found⟩
    · refine ⟨after, coherent', ?_⟩
      rw [readRuns_remaining found (getCluster_run reads chain (by omega) (by omega) (by omega) _ _),
        whole, chainBytes_append, List.take_append_of_le_length (by omega)]
    · rw [size] at found long
      cases rest' with
      | nil =>
        rw [whole, List.append_nil, List.length_range'] at enough
        omega
      | cons head rest' =>
        obtain ⟨cache', link, coherent'', valid⟩ := getFatent_next reads even coherent' next
        have read := getCluster_run reads chain (by omega) (Nat.le_refl _)
          (show (count + 1) * mydata.bytesperclust < 2 ^ 32 by omega) buffer memory
        have positive : 0 < (count + 1) * mydata.bytesperclust :=
          Nat.mul_pos (by omega) mydata.nonempty
        rw [whole, List.length_append, List.length_range', Nat.add_mul] at enough
        obtain ⟨last, coherentLast, rest⟩ := ih (filesize - (count + 1) * mydata.bytesperclust)
          (by omega) coherent'' next.tail (by omega) (by omega)
          (buffer + (count + 1) * mydata.bytesperclust)
          (gotsize + ((count + 1) * mydata.bytesperclust : Nat))
          (memory.store buffer (chainBytes volume mydata (List.range' clust (count + 1)))) rfl
        refine ⟨last, coherentLast, ?_⟩
        rw [List.take_of_length_le length.le] at read
        rw [readRuns_getit found (by omega) read link valid, rest, whole, chainBytes_append,
          List.take_append, length]
        have store := Memory.store_append memory buffer
          (chainBytes volume mydata (List.range' clust (count + 1)))
          ((chainBytes volume mydata (head :: rest')).take
            (filesize - (count + 1) * mydata.bytesperclust))
        rw [length] at store
        have sum : (count + 1) * mydata.bytesperclust +
            (filesize - (count + 1) * mydata.bytesperclust) = filesize := by omega
        rw [store, List.take_of_length_le (show _ ≤ filesize by omega), Int.add_assoc,
          ← Int.natCast_add, sum]

/-- Going to `pos` leaves the part of the chain that starts in the cluster there. -/
theorem skipClusters_spec (coherent : Coherent volume mydata cache)
    (chain : ValidChain volume mydata (clust :: rest)) {pos actsize : Nat}
    (enough : pos < actsize + rest.length * mydata.bytesperclust)
    (reached : actsize ≤ pos + mydata.bytesperclust) :
    ∃ skipped clust' rest' after, clust :: rest = skipped ++ clust' :: rest' ∧
      Coherent volume mydata after ∧
      pos < actsize + skipped.length * mydata.bytesperclust ∧
      actsize + skipped.length * mydata.bytesperclust ≤ pos + mydata.bytesperclust ∧
      skipClusters disk mydata cache clust pos actsize =
        (after, some (clust', actsize + skipped.length * mydata.bytesperclust)) := by
  induction rest generalizing cache clust actsize with
  | nil =>
    simp only [List.length_nil, Nat.zero_mul, Nat.add_zero] at enough
    refine ⟨[], clust, [], cache, rfl, coherent, by simpa using enough, by simpa using reached, ?_⟩
    rw [skipClusters, dif_neg (by omega)]
    simp
  | cons next rest ih =>
    by_cases more : actsize ≤ pos
    · obtain ⟨after, read, coherent', valid⟩ := getFatent_next reads even coherent chain
      have further : pos < actsize + mydata.bytesperclust + rest.length * mydata.bytesperclust := by
        simp only [List.length_cons, Nat.add_mul, Nat.one_mul] at enough
        omega
      obtain ⟨skipped, clust', rest', last, split, coherentLast, before, after', skip⟩ :=
        ih coherent' chain.tail further (by omega)
      have size : actsize + (clust :: skipped).length * mydata.bytesperclust =
          actsize + mydata.bytesperclust + skipped.length * mydata.bytesperclust := by
        simp only [List.length_cons]
        ring
      refine ⟨clust :: skipped, clust', rest', last, by rw [split, List.cons_append], coherentLast,
        size ▸ before, size ▸ after', ?_⟩
      rw [skipClusters, dif_pos more, read]
      simp only [valid, Bool.false_eq_true, ↓reduceIte, skip, size]
    · refine ⟨[], clust, next :: rest, cache, rfl, coherent, by simpa using more,
        by simpa using reached, ?_⟩
      rw [skipClusters, dif_neg more]
      simp

end Follow

theorem load_store_drop (memory : Memory) (bytes : List UInt8) {skip count : Nat}
    (whole : bytes.length = skip + count) :
    (memory.store 0 bytes).load skip count = bytes.drop skip := by
  have stored := (Memory.store_holds memory 0 bytes).load
  have rest := Memory.drop_load (memory.store 0 bytes) 0 bytes.length skip
  rw [stored, whole, Nat.zero_add, Nat.add_sub_cancel_left] at rest
  exact rest.symm

section Position

variable {disk : DiskRead} {volume : Memory} {mydata : Fsdata} [mydata.Clustered]
  (reads : Reads disk mydata.sectSize volume) (clustsize : mydata.bytesperclust ≤ maxClustsize)
include reads clustsize

omit [mydata.Clustered] in
theorem getCluster_partial {clust : Nat} {rest : List Nat}
    (chain : ValidChain volume mydata (clust :: rest)) {pos filesize : Nat}
    (inside : pos < mydata.bytesperclust) (below : pos < filesize) :
    ∃ block, getCluster disk mydata clust 0 (min filesize mydata.bytesperclust % 2 ^ 32)
        Memory.blank = (true, block) ∧
      block.load pos (min filesize mydata.bytesperclust - pos) =
        ((clusterBytes volume mydata clust).take filesize).drop pos := by
  have limit : maxClustsize = 65536 := rfl
  have single : clust :: rest = List.range' clust 1 ++ rest := rfl
  have bytes : chainBytes volume mydata (List.range' clust 1) = clusterBytes volume mydata clust := by
    simp [chainBytes]
  have length : (clusterBytes volume mydata clust).length = mydata.bytesperclust := by
    simp [clusterBytes]
  rw [single] at chain
  refine ⟨_, getCluster_run reads chain (by omega) (by omega) (by omega) 0 Memory.blank, ?_⟩
  rw [bytes, load_store_drop _ _ (by rw [List.length_take]; omega)]
  congr 1
  rw [← length, ← List.take_take, List.take_length]

/-- `get_contents` from the cluster at `pos` on reads the rest of the chain. -/
theorem contentsFrom_spec (even : 2 ∣ mydata.sectSize) {cache : FatCache}
    (coherent : Coherent volume mydata cache) {clust : Nat} {rest : List Nat}
    (chain : ValidChain volume mydata (clust :: rest)) {pos filesize : Nat}
    (inside : pos < mydata.bytesperclust) (below : pos < filesize)
    (enough : filesize ≤ (clust :: rest).length * mydata.bytesperclust)
    (range : filesize < pos + 2 ^ 31) (buffer : Nat) (memory : Memory) :
    ∃ after, Coherent volume mydata after ∧
      contentsFrom disk mydata cache clust filesize pos buffer memory =
        ⟨0, (filesize - pos : Nat), after, memory.store buffer
          (((chainBytes volume mydata (clust :: rest)).take filesize).drop pos)⟩ := by
  by_cases atStart : pos = 0
  · subst atStart
    obtain ⟨after, coherent', read⟩ :=
      readRuns_spec reads even coherent chain enough (by omega) buffer 0 memory
    refine ⟨after, coherent', ?_⟩
    rw [contentsFrom, if_pos rfl, read]
    simp
  · obtain ⟨block, read, part⟩ := getCluster_partial reads clustsize chain inside below
    have bytes : chainBytes volume mydata (clust :: rest) =
        clusterBytes volume mydata clust ++ chainBytes volume mydata rest := List.flatMap_cons ..
    have length : (clusterBytes volume mydata clust).length = mydata.bytesperclust := by
      simp [clusterBytes]
    simp only [contentsFrom, if_neg atStart, read, Bool.not_true, Bool.false_eq_true, ↓reduceIte,
      part]
    by_cases last : filesize ≤ mydata.bytesperclust
    · refine ⟨cache, coherent, ?_⟩
      rw [Nat.min_eq_left last, Nat.sub_self, if_pos rfl, bytes,
        List.take_append_of_le_length (by omega)]
    · cases rest with
      | nil =>
        simp only [List.length_singleton, Nat.one_mul] at enough
        omega
      | cons next rest =>
        obtain ⟨cache', link, coherent', valid⟩ := getFatent_next reads even coherent chain
        simp only [List.length_cons, Nat.add_mul, Nat.one_mul] at enough
        obtain ⟨after, coherentLast, readRest⟩ := readRuns_spec reads even coherent' chain.tail
          (show filesize - mydata.bytesperclust ≤ (next :: rest).length * mydata.bytesperclust by
            simp only [List.length_cons, Nat.add_mul, Nat.one_mul]
            omega) (by omega) (buffer + (mydata.bytesperclust - pos)) (mydata.bytesperclust - pos : Nat)
          (memory.store buffer ((clusterBytes volume mydata clust).drop pos))
        refine ⟨after, coherentLast, ?_⟩
        have store := Memory.store_append memory buffer ((clusterBytes volume mydata clust).drop pos)
          ((chainBytes volume mydata (next :: rest)).take (filesize - mydata.bytesperclust))
        rw [List.length_drop, length] at store
        rw [store, ← Int.natCast_add] at readRest
        rw [Nat.min_eq_right (by omega), if_neg (by omega), link,
          List.take_of_length_le (show (clusterBytes volume mydata clust).length ≤ filesize by omega)]
        simp only [valid, Bool.false_eq_true, ↓reduceIte, readRest]
        rw [bytes, List.take_append, length, List.drop_append_of_le_length (by
          rw [List.length_take]
          omega), List.take_of_length_le (show (clusterBytes volume mydata clust).length ≤ filesize by
            omega)]
        congr 2
        omega

end Position

/-- `get_contents` reads the bytes of the file from `pos` on, up to `maxsize` of them. -/
theorem getContents_reads (disk : DiskRead) (volume : Memory) (mydata : Fsdata)
    [mydata.Clustered] (cache : FatCache) (dent : DirEntry) (clusters : List Nat)
    (pos buffer maxsize : Nat) (memory : Memory)
    (reads : Reads disk mydata.sectSize volume) (even : 2 ∣ mydata.sectSize)
    (clustsize : mydata.bytesperclust ≤ maxClustsize) (coherent : Coherent volume mydata cache)
    (chain : ValidChain volume mydata clusters)
    (start : ∀ clust ∈ clusters.head?, dent.startClust mydata.fatsize = clust)
    (enough : dent.size.toNat ≤ clusters.length * mydata.bytesperclust)
    (positive : 0 < maxsize) (range : maxsize < 2 ^ 31) :
    ∃ after, Coherent volume mydata after ∧
      getContents disk mydata cache dent pos buffer maxsize memory =
        ⟨0, (min dent.size.toNat (pos + maxsize) - pos : Nat), after, memory.store buffer
          (((chainBytes volume mydata clusters).drop pos).take
            (min dent.size.toNat (pos + maxsize) - pos))⟩ := by
  by_cases past : dent.size.toNat ≤ pos
  · refine ⟨cache, coherent, ?_⟩
    have nothing : min dent.size.toNat (pos + maxsize) - pos = 0 := by omega
    simp only [getContents, if_pos past, nothing, List.take_zero, Memory.store_nil]
    rfl
  · have limit : (if 0 < maxsize ∧ pos + maxsize < dent.size.toNat then pos + maxsize
        else dent.size.toNat) = min dent.size.toNat (pos + maxsize) := by
      split <;> omega
    cases clusters with
    | nil =>
      simp only [List.length_nil, Nat.zero_mul] at enough
      omega
    | cons clust rest =>
      have first := start clust rfl
      have within : pos < mydata.bytesperclust + rest.length * mydata.bytesperclust := by
        simp only [List.length_cons, Nat.add_mul, Nat.one_mul] at enough
        omega
      obtain ⟨skipped, clust', rest', after, split, coherent', before, reached, skip⟩ :=
        skipClusters_spec reads even coherent chain within (by omega)
      have base : mydata.bytesperclust + skipped.length * mydata.bytesperclust -
          mydata.bytesperclust = skipped.length * mydata.bytesperclust := by omega
      rw [split] at chain
      rw [split, List.length_append, Nat.add_mul] at enough
      obtain ⟨last, coherentLast, read⟩ := contentsFrom_spec reads clustsize even coherent'
        chain.of_append
        (show pos - skipped.length * mydata.bytesperclust < mydata.bytesperclust by omega)
        (show pos - skipped.length * mydata.bytesperclust <
          min dent.size.toNat (pos + maxsize) - skipped.length * mydata.bytesperclust by omega)
        (by omega) (by omega) buffer memory
      refine ⟨last, coherentLast, ?_⟩
      simp only [getContents, if_neg past, limit, first, skip, base, read]
      have length : (chainBytes volume mydata skipped).length =
          skipped.length * mydata.bytesperclust := by simp
      have skippedAll : (chainBytes volume mydata skipped).drop pos = [] :=
        List.drop_eq_nil_of_le (by omega)
      have count : min dent.size.toNat (pos + maxsize) - skipped.length * mydata.bytesperclust -
          (pos - skipped.length * mydata.bytesperclust) =
            min dent.size.toNat (pos + maxsize) - pos := by omega
      rw [split, chainBytes_append, List.drop_append, length, skippedAll, List.nil_append,
        List.drop_take, count]

/-- A volume with the chain 2, 3, 5. -/
def fragmented : Memory := fun a =>
  if a = 512 + 4 then 3 else if a = 512 + 6 then 5 else if a < 1024 then 0 else UInt8.ofNat (a / 3)

/-- Its parameters. -/
def fragmentedData : Fsdata := ⟨.fat16, 1, 1, 2, 512, 1, 1, usualSector⟩

instance : fragmentedData.Clustered := ⟨Nat.one_pos⟩

/-- A read across the end of the run of two clusters, into a buffer that is not aligned. -/
theorem getContents_reads_fragmented :
    ∃ after, Coherent fragmented fragmentedData after ∧
      getContents (fun block count => (count, fragmented.load (block * 512) (count * 512)))
          fragmentedData ⟨Memory.blank, none⟩ ⟨0, 2, 1200⟩ 700 0x12000001 400 Memory.blank =
        ⟨0, (400 : Nat), after, Memory.blank.store 0x12000001
          (((chainBytes fragmented fragmentedData [2, 3, 5]).drop 700).take 400)⟩ := by
  refine getContents_reads _ fragmented fragmentedData ⟨Memory.blank, none⟩ ⟨0, 2, 1200⟩ [2, 3, 5]
    700 0x12000001 400 Memory.blank (fun _ _ => rfl) (by decide) (by decide)
    (fun _ none => by cases none) ⟨?_, by decide, ?_, ?_, ?_⟩ ?_ (by decide) (by decide) (by decide)
  · simp only [List.isChain_cons_cons, List.IsChain.singleton, and_true]
    decide
  · simp only [Fsdata.HasEntry]
    decide
  · decide
  · decide
  · simp [DirEntry.startClust]

end HrppBoot.Fat
