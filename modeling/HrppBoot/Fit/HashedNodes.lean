import HrppBoot.Fit.Signature
import HrppBoot.Lib.CText

/-!
# The arrays of a configuration's check

`fit_config_check_sig` counts the zero bytes of `hashed-nodes`, reserves as many entries of
`node_inc`, and stores a name for every step of `strlen` that stays in the property. The names are
one more than was reserved where the last one has no end. The regions of `fdt_find_regions` and the
one of the strings fit the array that is declared for them.
-/

namespace HrppBoot.Fit

open ByteMemory

/-! ## Names -/

/-- The property `hashed-nodes` in a memory, at address 0. -/
structure HashedNodes where
  memory : Memory
  /-- `prop_len` -/
  length : Nat
  size : Nat
  inside : length ≤ size

namespace HashedNodes

variable (prop : HashedNodes)

/-- The loop that counts: a name for every zero byte. -/
def count : Nat := prop.memory.zeros 0 prop.length

/-- `strlen`, where the memory has the end of the text. -/
def strlen (name : Nat) : Option Nat := prop.memory.textLength name (prop.size - name)

/-- The loop that stores the names, from one on: the indices and what is stored there. It goes no
further where `strlen` runs out of the memory. -/
def storeNames (i name : Nat) : List (Nat × Nat) :=
  if name < prop.length then
    (i, name) ::
      match prop.strlen name with
      | none => []
      | some n => storeNames (i + 1) (name + n + 1)
  else []
termination_by prop.length - name

/-- What is stored in `node_inc`, and how many entries it has. -/
def nodeInc : Except String (Nat × List (Nat × Nat)) :=
  if prop.count = 0 then .error "Can't get hashed-nodes property"
  else if prop.count > imageMaxHashedNodes then .error "Number of hashed nodes exceeds maximum"
  else .ok (prop.count, prop.storeNames 0 0)

/-- The last name has its end in the property. -/
def Closed : Prop := prop.length = 0 ∨ prop.memory (prop.length - 1) = 0

variable {prop} {i name n : Nat}

theorem strlen_of_inside (text : prop.memory.textLength name (prop.length - name) = some n) :
    prop.strlen name = some n := by
  have inside := prop.inside
  exact Memory.textLength_mono (by omega) text

theorem storeNames_text (text : prop.memory.textLength name (prop.length - name) = some n) :
    prop.storeNames i name = (i, name) :: prop.storeNames (i + 1) (name + n + 1) := by
  have less := (Memory.textLength_eq_some.mp text).1
  rw [storeNames, if_pos (by omega), strlen_of_inside text]

theorem storeNames_open (before : name < prop.length)
    (text : prop.memory.textLength name (prop.length - name) = none) :
    prop.storeNames i name = [(i, name)] := by
  rw [storeNames, if_pos before]
  cases found : prop.strlen name with
  | none => rfl
  | some n =>
    have outside : ¬name + n + 1 < prop.length := by
      intro less
      have ends := (Memory.textLength_eq_some.mp found).2.1
      exact Memory.textLength_eq_none.mp text n (by omega) ends
    dsimp only
    rw [storeNames, if_neg outside]

theorem storeNames_nil (behind : prop.length ≤ name) : prop.storeNames i name = [] := by
  rw [storeNames, if_neg (Nat.not_lt.mpr behind)]

theorem zeros_text (text : prop.memory.textLength name (prop.length - name) = some n) :
    prop.memory.zeros name (prop.length - name) =
      1 + prop.memory.zeros (name + n + 1) (prop.length - (name + n + 1)) := by
  have less := (Memory.textLength_eq_some.mp text).1
  rw [show prop.length - name = n + 1 + (prop.length - (name + n + 1)) by omega, Memory.zeros_add,
    Memory.zeros_text text]
  rfl

/-- A name without an end reaches the last byte of the property. -/
theorem last_open (before : name < prop.length)
    (text : prop.memory.textLength name (prop.length - name) = none) :
    prop.memory (prop.length - 1) ≠ 0 := by
  have last := Memory.textLength_eq_none.mp text (prop.length - 1 - name) (by omega)
  rwa [show name + (prop.length - 1 - name) = prop.length - 1 by omega] at last

theorem length_storeNames (prop : HashedNodes) (i name : Nat) :
    (prop.storeNames i name).length = prop.memory.zeros name (prop.length - name) +
      if name < prop.length ∧ prop.memory (prop.length - 1) ≠ 0 then 1 else 0 := by
  induction rest : prop.length - name using Nat.strong_induction_on generalizing i name with
  | _ rest' ih =>
    subst rest
    by_cases before : name < prop.length
    · cases text : prop.memory.textLength name (prop.length - name) with
      | none =>
        rw [storeNames_open before text, if_pos ⟨before, prop.last_open before text⟩,
          Memory.zeros_eq_zero.mpr (Memory.textLength_eq_none.mp text)]
        rfl
      | some n =>
        have ended := Memory.textLength_eq_some.mp text
        rw [storeNames_text text, List.length_cons, ih _ (by omega) (i + 1) (name + n + 1) rfl,
          zeros_text text]
        by_cases more : name + n + 1 < prop.length
        · simp only [more, before, true_and]
          omega
        · have final : prop.memory (prop.length - 1) = 0 := by
            rw [show prop.length - 1 = name + n by omega]
            exact ended.2.1
          simp only [final, ne_eq, not_true_eq_false, and_false, if_false]
          omega
    · rw [storeNames_nil (by omega), if_neg fun both => before both.1,
        show prop.length - name = 0 by omega]
      rfl

theorem storeNames_indices (prop : HashedNodes) (i name : Nat) :
    (prop.storeNames i name).map Prod.fst =
      List.range' i (prop.storeNames i name).length := by
  induction rest : prop.length - name using Nat.strong_induction_on generalizing i name with
  | _ rest' ih =>
    subst rest
    rw [storeNames]
    split
    · cases found : prop.strlen name with
      | none => rfl
      | some n =>
        dsimp only
        rw [List.map_cons, ih _ (by omega) (i + 1) (name + n + 1) rfl]
        rfl
    · rfl

theorem storeNames_inside (closed : prop.Closed) {index : Nat}
    (stored : (index, n) ∈ prop.storeNames i name) :
    ∃ length, prop.strlen n = some length ∧ n + length < prop.length := by
  induction rest : prop.length - name using Nat.strong_induction_on generalizing i name with
  | _ rest' ih =>
    subst rest
    by_cases before : name < prop.length
    · cases text : prop.memory.textLength name (prop.length - name) with
      | none =>
        exact absurd (closed.resolve_left (by omega)) (prop.last_open before text)
      | some length =>
        have ended := Memory.textLength_eq_some.mp text
        rw [storeNames_text text] at stored
        rcases List.mem_cons.mp stored with same | later
        · cases same
          exact ⟨length, strlen_of_inside text, by omega⟩
        · exact ih _ (by omega) later rfl
    · rw [storeNames_nil (by omega)] at stored
      exact absurd stored List.not_mem_nil

/-- As many names are stored as were reserved, and each lies in the property. -/
def NamesFit (prop : HashedNodes) : Prop :=
  ∀ reserved names, prop.nodeInc = .ok (reserved, names) →
    names.map Prod.fst = List.range reserved ∧
      ∀ i name, (i, name) ∈ names → ∃ n, prop.strlen name = some n ∧ name + n < prop.length

/-- This is so where the property is refused or its last name has an end. -/
theorem namesFit_iff (prop : HashedNodes) :
    prop.NamesFit ↔ prop.count = 0 ∨ imageMaxHashedNodes < prop.count ∨ prop.Closed := by
  unfold NamesFit nodeInc
  by_cases none : prop.count = 0
  · rw [if_pos none]
    exact iff_of_true (fun _ _ refused => by cases refused) (.inl none)
  · by_cases many : prop.count > imageMaxHashedNodes
    · rw [if_neg none, if_pos many]
      exact iff_of_true (fun _ _ refused => by cases refused) (.inr (.inl many))
    · rw [if_neg none, if_neg many, or_iff_right none, or_iff_right many]
      have indices := storeNames_indices prop 0 0
      have total := length_storeNames prop 0 0
      rw [Nat.sub_zero] at total
      have some : 0 < prop.length := by
        by_contra empty
        refine none ?_
        rw [count, show prop.length = 0 by omega]
        rfl
      constructor
      · intro fit
        obtain ⟨same, -⟩ := fit _ _ rfl
        refine .inr ?_
        by_contra unended
        have lengths := congrArg List.length same
        rw [List.length_map, List.length_range, total, if_pos ⟨some, unended⟩, count] at lengths
        omega
      · rintro closed reserved names isOk
        cases isOk
        have last := closed.resolve_left (Nat.ne_of_gt some)
        refine ⟨?_, fun i name stored => storeNames_inside closed stored⟩
        rw [if_neg fun both => both.2 last, Nat.add_zero] at total
        rw [indices, total, List.range_eq_range']
        rfl

/-! ## The names as texts -/

theorem texts_append {text rest : List UInt8} (unended : ∀ c ∈ text, c ≠ 0) :
    texts (text ++ 0 :: rest) = text :: texts rest := by
  induction text with
  | nil => rw [List.nil_append, texts]
  | cons c text ih =>
    have first : c ≠ 0 := unended c List.mem_cons_self
    rw [List.cons_append, texts.eq_3 c _ first,
      ih fun d member => unended d (List.mem_cons_of_mem c member)]

def textAt (prop : HashedNodes) (name : Nat) : List UInt8 :=
  match prop.strlen name with
  | none => []
  | some n => prop.memory.load name n

theorem storeNames_texts (closed : prop.Closed) (i name : Nat) :
    (prop.storeNames i name).map (fun entry => prop.textAt entry.2) =
      texts (prop.memory.load name (prop.length - name)) := by
  induction rest : prop.length - name using Nat.strong_induction_on generalizing i name with
  | _ rest' ih =>
    subst rest
    by_cases before : name < prop.length
    · cases text : prop.memory.textLength name (prop.length - name) with
      | none =>
        exact absurd (closed.resolve_left (by omega)) (prop.last_open before text)
      | some n =>
        obtain ⟨less, ends, unended⟩ := Memory.textLength_eq_some.mp text
        have parts : prop.memory.load name (prop.length - name) = prop.memory.load name n ++
            0 :: prop.memory.load (name + n + 1) (prop.length - (name + n + 1)) := by
          have one : prop.memory.load (name + n) 1 = [0] := congrArg (· :: []) ends
          rw [show prop.length - name = n + (1 + (prop.length - (name + n + 1))) by omega,
            ← Memory.load_append, ← Memory.load_append, one]
          rfl
        have first : prop.textAt name = prop.memory.load name n := by
          rw [textAt, strlen_of_inside text]
        have none : ∀ c ∈ prop.memory.load name n, c ≠ 0 := by
          intro c member
          obtain ⟨k, inside, rfl⟩ := List.mem_map.mp member
          exact unended k (List.mem_range.mp inside)
        rw [storeNames_text text, List.map_cons, parts, texts_append none,
          ih _ (by omega) (i + 1) (name + n + 1) rfl, first]
    · rw [storeNames_nil (by omega), show prop.length - name = 0 by omega]
      rfl

/-- The property of a signature node in a tree, with the memory behind it up to an end. -/
def ofNode (fit : Fdt) (noffset size : Nat)
    (inside : ((fit.getprop noffset .hashedNodes).getD []).length ≤ size) : HashedNodes where
  memory := (fit.behind noffset .hashedNodes).store 0 ((fit.getprop noffset .hashedNodes).getD [])
  length := ((fit.getprop noffset .hashedNodes).getD []).length
  size := size
  inside := inside

theorem storeNames_hashedNodes {fit : Fdt} {noffset size : Nat}
    {inside : ((fit.getprop noffset .hashedNodes).getD []).length ≤ size}
    (closed : (ofNode fit noffset size inside).Closed) :
    ((ofNode fit noffset size inside).storeNames 0 0).map
        (fun entry => (ofNode fit noffset size inside).textAt entry.2) =
      hashedNodes fit noffset := by
  have names := storeNames_texts closed 0 0
  have total := length_storeNames (ofNode fit noffset size inside) 0 0
  have bytes : (ofNode fit noffset size inside).memory.load 0
      (ofNode fit noffset size inside).length = (fit.getprop noffset .hashedNodes).getD [] :=
    (Memory.store_holds _ _ _).load
  have ended : ¬(0 < (ofNode fit noffset size inside).length ∧
      (ofNode fit noffset size inside).memory
        ((ofNode fit noffset size inside).length - 1) ≠ 0) := by
    rintro ⟨some, unended⟩
    exact unended (closed.resolve_left (Nat.ne_of_gt some))
  rw [Nat.sub_zero, bytes] at names
  rw [Nat.sub_zero, if_neg ended, Nat.add_zero, Memory.zeros, bytes, ← List.length_map
    (fun entry : Nat × Nat => (ofNode fit noffset size inside).textAt entry.2), names] at total
  rw [names, hashedNodes, ← total]
  exact (List.take_length).symm

end HashedNodes

/-! ## Regions -/

structure FdtRegion where
  offset : Int
  size : Int

/-- What `fdt_find_regions` makes of a tag. -/
structure RegionTag where
  offset : Int
  stopAt : Int
  included : Bool

/-- The state of `fdt_find_regions`, and the entries of its array that were read or written. -/
structure RegionState where
  region : Nat → FdtRegion
  count : Nat
  start : Int
  touched : List Nat

/-- An entry is written if it is in the array. -/
def RegionState.write (state : RegionState) (maxRegions : Nat) (region : FdtRegion) : RegionState :=
  if state.count < maxRegions then
    { state with
      region := fun i => if i = state.count then region else state.region i
      touched := state.touched ++ [state.count]
      count := state.count + 1 }
  else { state with count := state.count + 1 }

/-- The loop of `fdt_find_regions` at a tag that is included: a region begins, or the last one goes
on. -/
def RegionState.begin (state : RegionState) (base : Int) (maxRegions : Nat) (offset : Int) :
    RegionState :=
  if state.count ≠ 0 ∧ state.count ≤ maxRegions then
    let last := state.region (state.count - 1)
    let state := { state with touched := state.touched ++ [state.count - 1] }
    if offset = last.offset + last.size - base then
      { state with start := last.offset - base, count := state.count - 1 }
    else { state with start := offset }
  else { state with start := offset }

/-- The loop of `fdt_find_regions` behind its `switch`. -/
def RegionState.atTag (base : Int) (maxRegions : Nat) (state : RegionState) (tag : RegionTag) :
    RegionState :=
  if tag.included then
    if state.start = -1 then state.begin base maxRegions tag.offset else state
  else if state.start ≠ -1 then
    { state.write maxRegions ⟨base + state.start, tag.stopAt - state.start⟩ with start := -1 }
  else state

/-- `fdt_find_regions` over the tags of a tree, with an error that it meets: what it returns, and
the state behind it. -/
def fdtFindRegions (base : Int) (maxRegions : Nat) (tags : List RegionTag) (error : Option Int)
    (nextoffset : Int) (region : Nat → FdtRegion) : Int × RegionState :=
  let state := tags.foldl (RegionState.atTag base maxRegions) ⟨region, 0, -1, []⟩
  match error with
  | some code => (code, state)
  | none =>
    let state := state.write maxRegions ⟨base + state.start, nextoffset - state.start⟩
    (state.count, state)

def maxRegions (reserved : Nat) : Nat := 20 + reserved * 7

/-- The end of `fit_config_check_sig`: the number of regions that are verified, and the entries of
`fdt_regions` that were used. -/
def verifiedRegions (reserved : Nat) (strings : Bool) (found : Int × RegionState) :
    Except String Nat × List Nat :=
  if found.1 < 0 then (.error "Failed to hash configuration", found.2.touched)
  else if found.1 = 0 then (.error "No data to hash", found.2.touched)
  else if found.1 ≥ (maxRegions reserved : Int) - 1 then
    (.error "Too many hash regions", found.2.touched)
  else if strings then (.ok (found.1.toNat + 1), found.2.touched ++ [found.1.toNat])
  else (.ok found.1.toNat, found.2.touched)

variable {base : Int} {most : Nat}

/-- Entries that are used lie in the array. -/
def RegionState.Inside (state : RegionState) (most : Nat) : Prop :=
  ∀ index ∈ state.touched, index < most

theorem inside_concat {touched : List Nat} {index : Nat} (before : ∀ i ∈ touched, i < most)
    (less : index < most) : ∀ i ∈ touched ++ [index], i < most := by
  intro i member
  rcases List.mem_append.mp member with old | new
  · exact before i old
  · rw [List.mem_singleton.mp new]
    exact less

variable {state : RegionState}

theorem RegionState.Inside.write (inside : state.Inside most) (region : FdtRegion)
    : (state.write most region).Inside most := by
  unfold RegionState.write
  split
  · next less => exact inside_concat inside less
  · exact inside

theorem RegionState.Inside.begin (inside : state.Inside most) (offset : Int)
    : (state.begin base most offset).Inside most := by
  unfold RegionState.begin
  split
  · next some =>
    have touched := inside_concat inside (show state.count - 1 < most by omega)
    dsimp only
    split <;> exact touched
  · exact inside

theorem RegionState.Inside.atTag (inside : state.Inside most) (tag : RegionTag)
    : (state.atTag base most tag).Inside most := by
  unfold RegionState.atTag
  split
  · split
    · exact inside.begin tag.offset
    · exact inside
  · split
    · exact inside.write _
    · exact inside

theorem fdtFindRegions_inside (base : Int) (most : Nat) (tags : List RegionTag) (error : Option Int)
    (nextoffset : Int) (region : Nat → FdtRegion) :
    (fdtFindRegions base most tags error nextoffset region).2.Inside most := by
  have loop (state : RegionState) (inside : state.Inside most) :
      (tags.foldl (RegionState.atTag base most) state).Inside most := by
    induction tags generalizing state with
    | nil => exact inside
    | cons tag rest ih => exact ih _ (inside.atTag tag)
  have walked := loop ⟨region, 0, -1, []⟩ fun _ none => absurd none List.not_mem_nil
  unfold fdtFindRegions
  cases error with
  | some code => exact walked
  | none => exact walked.write _

theorem verifiedRegions_fit (reserved : Nat) (strings : Bool) (base : Int) (tags : List RegionTag)
    (error : Option Int) (nextoffset : Int) (region : Nat → FdtRegion) :
    let verified := verifiedRegions reserved strings
      (fdtFindRegions base (maxRegions reserved - 1) tags error nextoffset region)
    (∀ index ∈ verified.2, index < maxRegions reserved) ∧
      ∀ count, verified.1 = .ok count → count ≤ maxRegions reserved := by
  have inside := fdtFindRegions_inside base (maxRegions reserved - 1) tags error nextoffset region
  generalize fdtFindRegions base (maxRegions reserved - 1) tags error nextoffset region = found
    at inside
  have before : ∀ index ∈ found.2.touched, index < maxRegions reserved :=
    fun index used => Nat.lt_of_lt_of_le (inside index used) (Nat.sub_le _ _)
  dsimp only
  unfold verifiedRegions
  split
  · exact ⟨before, fun _ refused => by cases refused⟩
  · split
    · exact ⟨before, fun _ refused => by cases refused⟩
    · split
      · exact ⟨before, fun _ refused => by cases refused⟩
      · split
        · refine ⟨inside_concat before (by omega), fun count isOk => ?_⟩
          cases isOk
          omega
        · refine ⟨before, fun count isOk => ?_⟩
          cases isOk
          omega

theorem length_configRegions {fit : FitImage} {noffset : Nat} {regions : List Span}
    (isOk : configRegions fit noffset = .ok regions) (state : RegionState) :
    ∃ found, fit.findRegions (hashedNodes fit.tree noffset) = some found ∧
      (verifiedRegions (((fit.tree.getprop noffset .hashedNodes).getD []).count 0)
        (fit.tree.pointer noffset .hashedStrings).isSome (found.length, state)).1 =
          .ok regions.length := by
  unfold configRegions at isOk
  dsimp only at isOk
  split at isOk
  · cases isOk
  · split at isOk
    · cases isOk
    · split at isOk
      · cases isOk
      · next found isFound =>
        split at isOk
        · cases isOk
        · next some =>
          split at isOk
          · cases isOk
          · next few =>
            refine ⟨found, isFound, ?_⟩
            cases isOk
            rw [verifiedRegions, if_neg (by omega), if_neg (by omega),
              if_neg (by unfold maxRegions; omega), stringsRegion, List.length_append]
            cases fit.tree.pointer noffset .hashedStrings <;> rfl

/-! ## Both -/

/-- The names fit `node_inc` exactly where the property is refused or its last name has an end. The
regions always fit. -/
theorem configArrays_fit_iff (prop : HashedNodes) :
    (prop.NamesFit ↔ prop.count = 0 ∨ imageMaxHashedNodes < prop.count ∨ prop.Closed) ∧
      ∀ reserved strings base tags error nextoffset region,
        let verified := verifiedRegions reserved strings
          (fdtFindRegions base (maxRegions reserved - 1) tags error nextoffset region)
        (∀ index ∈ verified.2, index < maxRegions reserved) ∧
          ∀ count, verified.1 = .ok count → count ≤ maxRegions reserved :=
  ⟨prop.namesFit_iff, verifiedRegions_fit⟩

/-- The bytes `/`, zero and `a`, with zero bytes behind. -/
def unendedNodes : HashedNodes := ⟨Memory.blank.store 0 [0x2f, 0, 0x61], 3, 8, by decide⟩

/-- One name is reserved, and two are stored. -/
theorem unendedNodes_overflow :
    unendedNodes.nodeInc = .ok (1, [(0, 0), (1, 2)]) ∧ ¬unendedNodes.NamesFit := by
  have first : unendedNodes.strlen 0 = some 1 := by decide
  have second : unendedNodes.strlen 2 = some 1 := by decide
  have stored : unendedNodes.nodeInc = .ok (1, [(0, 0), (1, 2)]) := by
    have one : unendedNodes.count = 1 := by decide
    have names : unendedNodes.storeNames 0 0 = [(0, 0), (1, 2)] := by
      rw [HashedNodes.storeNames, if_pos (by decide), first]
      dsimp only
      rw [HashedNodes.storeNames, if_pos (by decide), second]
      dsimp only
      rw [HashedNodes.storeNames, if_neg (by decide)]
    rw [HashedNodes.nodeInc, one, names]
    rfl
  refine ⟨stored, fun fit => ?_⟩
  have indices := (fit 1 _ stored).1
  revert indices
  decide

end HrppBoot.Fit
