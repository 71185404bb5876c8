import HrppBoot.Fit.Required

/-!
# What a signature of a configuration covers

The nodes that are hashed are named in the signature node, which is not signed itself. What
`fdt_find_regions` does is assumed: it returns the properties of the nodes that are named, and of no
others.
-/

namespace HrppBoot.Fit

open ByteMemory Words Rsa

structure Layout where
  path : Nat → List UInt8
  /-- The properties of a node, without `data`. -/
  properties : Nat → List Span

def InRegions (regions : List Span) (byte : Nat) : Prop :=
  ∃ region ∈ regions, region.start ≤ byte ∧ byte < region.start + region.length

/-- The properties of a node are in the regions. -/
def Covers (layout : Layout) (regions : List Span) (node : Nat) : Prop :=
  ∀ span ∈ layout.properties node, ∀ byte, span.start ≤ byte → byte < span.start + span.length →
    InRegions regions byte

/-- `fdt_find_regions` returns the properties of the nodes that are named. -/
def FindsRegions (fit : FitImage) (layout : Layout) : Prop :=
  ∀ names regions, fit.findRegions names = some regions →
    ∀ node, ∀ span ∈ layout.properties node, ∀ byte, span.start ≤ byte →
      byte < span.start + span.length → (InRegions regions byte ↔ layout.path node ∈ names)

/-- The images that a configuration refers to. -/
def referredImages (fit : Fdt) (conf : Nat) : List Nat :=
  [PropName.kernel, .ramdisk, .fdt, .loadables, .setup].flatMap fun prop =>
    (texts ((fit.getprop conf prop).getD [])).filterMap fun name =>
      (fit.subnodeOffset 0 (ascii "images")).bind fun images => fit.subnodeOffset images name

/-- A configuration, the images that it refers to, and their hashes. -/
def referredNodes (fit : Fdt) (conf : Nat) : List Nat :=
  conf :: (referredImages fit conf).flatMap fun image =>
    image :: (fit.subnodes image).filter fun node => (ascii "hash").isPrefixOf (fit.name node)

section Coverage

variable (behind : Behind) (calculate : String → List (List UInt8) → Option (List UInt8))
  (blob : Fdt)
  (fit : FitImage) (layout : Layout) (conf : Nat)

/-- A signature node of the configuration. -/
def IsSignature (noffset : Nat) : Prop :=
  noffset ∈ fit.tree.subnodes conf ∧ fitSigNodename.isPrefixOf (fit.tree.name noffset) = true

/-- The signature verifies under the key, or under one that is tried besides. -/
def Accepts (key noffset : Nat) : Prop :=
  ∃ signed other, configSigned fit noffset = .ok signed ∧
    VerifiesUnder behind calculate blob signed other ∧
    (other = key ∨ TriedBesides blob fit.tree signed other)

/-- What accepted signatures of an accepted configuration cover includes the properties of the
configuration, its images and their hashes. -/
def ConfigCovered : Prop :=
  fitConfigVerifyRequiredSigs behind calculate blob fit conf = .ok () →
    ∀ key, RequiredKey blob (ascii "conf") key → ∀ noffset, IsSignature fit conf noffset →
      fitConfigCheckSig behind calculate blob fit (some key) noffset = .ok () →
        ∀ regions, configRegions fit noffset = .ok regions →
          ∀ node ∈ referredNodes fit.tree conf, Covers layout regions node

/-- Every signature that verifies names the configuration, its images and their hashes, or its
strings include their properties; unless a required key has no signature. -/
def NamesReferred : Prop :=
  (∀ key, RequiredKey blob (ascii "conf") key →
      ∃ noffset, IsSignature fit conf noffset ∧ Accepts behind calculate blob fit key noffset) →
    ∀ key, RequiredKey blob (ascii "conf") key → ∀ noffset, IsSignature fit conf noffset →
      Accepts behind calculate blob fit key noffset →
        ∀ node ∈ referredNodes fit.tree conf,
          layout.path node ∈ hashedNodes fit.tree noffset ∨
            Covers layout (stringsRegion fit noffset) node

end Coverage

variable {behind : Behind} {calculate : String → List (List UInt8) → Option (List UInt8)}
  {blob : Fdt}
  {fit : FitImage} {layout : Layout} {conf : Nat}

variable {noffset : Nat}

theorem configRegions_ok {regions : List Span} (isOk : configRegions fit noffset = .ok regions) :
    ∃ found, fit.findRegions (hashedNodes fit.tree noffset) = some found ∧
      regions = found ++ stringsRegion fit noffset := by
  unfold configRegions at isOk
  dsimp only at isOk
  split at isOk
  · cases isOk
  · split at isOk
    · cases isOk
    · split at isOk
      · cases isOk
      · rename_i found isFound
        split at isOk
        · cases isOk
        · split at isOk
          · cases isOk
          · cases isOk
            exact ⟨found, isFound, rfl⟩

theorem inRegions_append {left right : List Span} {byte : Nat} :
    InRegions (left ++ right) byte ↔ InRegions left byte ∨ InRegions right byte := by
  unfold InRegions
  simp only [List.mem_append, or_and_right, exists_or]

theorem covers_iff (finds : FindsRegions fit layout) {regions : List Span}
    (isOk : configRegions fit noffset = .ok regions) (node : Nat) :
    Covers layout regions node ↔
      layout.path node ∈ hashedNodes fit.tree noffset ∨
        Covers layout (stringsRegion fit noffset) node := by
  obtain ⟨found, isFound, rfl⟩ := configRegions_ok isOk
  have each := finds _ _ isFound node
  constructor
  · intro covers
    by_cases named : layout.path node ∈ hashedNodes fit.tree noffset
    · exact .inl named
    · right
      intro span member byte low high
      rcases inRegions_append.mp (covers span member byte low high) with inFound | inStrings
      · exact absurd ((each span member byte low high).mp inFound) named
      · exact inStrings
  · rintro (named | covers) span member byte low high
    · exact inRegions_append.mpr (.inl ((each span member byte low high).mpr named))
    · exact inRegions_append.mpr (.inr (covers span member byte low high))

theorem fitConfigCheckSig_ok_iff (keys : (sigNode blob).isSome) {key noffset : Nat} :
    fitConfigCheckSig behind calculate blob fit (some key) noffset = .ok () ↔
      Accepts behind calculate blob fit key noffset := by
  unfold fitConfigCheckSig Accepts
  rw [checkSigned_ok_iff]
  constructor
  · rintro ⟨signed, isSigned, verifies⟩
    obtain ⟨-, other, under, isRequired | tried⟩ := rsaVerify_ok_iff.mp verifies
    · exact ⟨signed, other, isSigned, under, .inl (Option.some.inj isRequired).symm⟩
    · exact ⟨signed, other, isSigned, under, .inr tried⟩
  · rintro ⟨signed, other, isSigned, under, rfl | tried⟩
    · exact ⟨signed, isSigned, rsaVerify_ok_iff.mpr ⟨keys, other, under, .inl rfl⟩⟩
    · exact ⟨signed, isSigned, rsaVerify_ok_iff.mpr ⟨keys, other, under, .inr tried⟩⟩

theorem Accepts.regions {key : Nat} (accepts : Accepts behind calculate blob fit key noffset) :
    ∃ regions, configRegions fit noffset = .ok regions := by
  obtain ⟨signed, -, isSigned, -⟩ := accepts
  unfold configSigned at isSigned
  split at isSigned
  · cases isSigned
  · split at isSigned
    · cases isSigned
    · split at isSigned
      · cases isSigned
      · rename_i regions isOk
        exact ⟨regions, isOk⟩

theorem fitConfigVerifyRequiredSigs_accepts :
    fitConfigVerifyRequiredSigs behind calculate blob fit conf = .ok () ↔
      ∀ key, RequiredKey blob (ascii "conf") key →
        ∃ noffset, IsSignature fit conf noffset ∧
          Accepts behind calculate blob fit key noffset := by
  rw [fitConfigVerifyRequiredSigs_ok_iff]
  constructor
  · intro each key required
    rcases each key required with ⟨signed, ⟨noffset, member, named, isSigned⟩, under⟩ |
      ⟨signed, other, ⟨noffset, member, named, isSigned⟩, tried, under⟩
    · exact ⟨noffset, ⟨member, named⟩, signed, key, isSigned, under, .inl rfl⟩
    · exact ⟨noffset, ⟨member, named⟩, signed, other, isSigned, under, .inr tried⟩
  · intro each key required
    obtain ⟨noffset, ⟨member, named⟩, signed, other, isSigned, under, isKey | tried⟩ :=
      each key required
    · subst isKey
      exact .inl ⟨signed, ⟨noffset, member, named, isSigned⟩, under⟩
    · exact .inr ⟨signed, other, ⟨noffset, member, named, isSigned⟩, tried, under⟩

/-- Accepted signatures cover the configuration, its images and their hashes if and only if every
signature that verifies names them. -/
theorem config_covered_iff (behind : Behind)
    (calculate : String → List (List UInt8) → Option (List UInt8)) (blob : Fdt) (fit : FitImage)
    (layout : Layout) (conf : Nat) (finds : FindsRegions fit layout) :
    ConfigCovered behind calculate blob fit layout conf ↔
      NamesReferred behind calculate blob fit layout conf := by
  have keys {key : Nat} (required : RequiredKey blob (ascii "conf") key) : (sigNode blob).isSome := by
    obtain ⟨node, isNode, -⟩ := required
    rw [isNode]
    rfl
  unfold ConfigCovered NamesReferred
  rw [fitConfigVerifyRequiredSigs_accepts]
  constructor
  · intro covered accepted key required noffset isSignature accepts node member
    obtain ⟨regions, isOk⟩ := accepts.regions
    have checks := (fitConfigCheckSig_ok_iff (keys required)).mpr accepts
    exact (covers_iff finds isOk node).mp
      (covered accepted key required noffset isSignature checks regions isOk node member)
  · intro named accepted key required noffset isSignature checks regions isOk node member
    have accepts := (fitConfigCheckSig_ok_iff (keys required)).mp checks
    exact (covers_iff finds isOk node).mpr
      (named accepted key required noffset isSignature accepts node member)

/-! ## A signature of the root only -/

/-- The regions of the root of an image: its beginning, with that of the configurations, the end of
the configurations with the beginning of the images, and the end. -/
def rootRegions : List (List UInt8) :=
  [[0, 0, 0, 1, 0, 0, 0, 0, 0, 0, 0, 1] ++ ascii "configurations" ++ [0, 0],
    [0, 0, 0, 2, 0, 0, 0, 1] ++ ascii "images" ++ [0, 0],
    [0, 0, 0, 2, 0, 0, 0, 2, 0, 0, 0, 9]]

/-- Their SHA-256 checksum. -/
def rootSigner : SampleSigner where
  digest := [0x76, 0x14, 0x02, 0xe7, 0xbc, 0x3a, 0x1c, 0xa8, 0x0b, 0xba, 0x47, 0x82, 0x60, 0xbd, 0x02,
    0x31, 0x77, 0x6b, 0x80, 0xc9, 0xac, 0x80, 0x8b, 0xd5, 0x27, 0x8a, 0xfe, 0xdd, 0x7b, 0xd8, 0xbc, 0xe5]
  inverse := [0xbe, 0x82, 0xa0, 0xed]
  length := by decide
  odd := by decide
  cell := by decide
  isInverse := by decide +kernel

/-- The checksums, as far as they are used. -/
def rootCalculate (name : String) (regions : List (List UInt8)) : Option (List UInt8) :=
  if name = "sha256" ∧ regions = rootRegions then some rootSigner.digest else none

/-- A control tree with one key, which is required for configurations. -/
def rootBlob : Fdt where
  subnodes node := if node = 0 then [8] else if node = 8 then [16] else []
  name node := if node = 8 then ascii "signature" else if node = 16 then ascii "key-b" else []
  getprop
    | 16, prop => rootSigner.props (some (ascii "conf" ++ [0])) prop
    | _, _ => none
  behind _ _ := Memory.blank

/-- An image whose configuration has a signature of the root only. -/
def rootFit : FitImage where
  tree :=
    { subnodes node := if node = 0 then [8, 404] else if node = 8 then [28] else
        if node = 28 then [64] else if node = 404 then [416] else []
      name node := if node = 8 then ascii "configurations" else if node = 28 then ascii "conf@1" else
        if node = 64 then ascii "signature@1" else if node = 404 then ascii "images" else
        if node = 416 then ascii "kernel@1" else []
      getprop
        | 28, .kernel => some (ascii "kernel@1" ++ [0])
        | 64, .algo => some (ascii "sha256,rsa2048" ++ [0])
        | 64, .value => some (natBytes 256 (3 * 2 ^ 681))
        | 64, .keyNameHint => some (ascii "b" ++ [0])
        | 64, .hashedNodes => some (ascii "/" ++ [0])
        | _, _ => none
      behind _ _ := Memory.blank }
  bytes := ((Memory.blank.store 56 (rootRegions.getD 0 [])).store 456 (rootRegions.getD 1 [])).store 956
    (rootRegions.getD 2 [])
  offDtStrings := 968
  findRegions names := if names = [ascii "/"] then some [⟨56, 28⟩, ⟨456, 16⟩, ⟨956, 12⟩] else none

/-- Where its nodes are; the root has no properties. -/
def rootLayout : Layout where
  path node := if node = 0 then ascii "/" else if node = 28 then ascii "/configurations/conf@1" else
    if node = 416 then ascii "/images/kernel@1" else []
  properties node := if node = 28 then [⟨96, 24⟩] else if node = 416 then [⟨488, 28⟩] else []

/-- The regions that are found are those of the root. -/
theorem rootFit_findsRegions : FindsRegions rootFit rootLayout := by
  intro names regions isFound node span member byte low high
  have isRoot : names = [ascii "/"] ∧ regions = [⟨56, 28⟩, ⟨456, 16⟩, ⟨956, 12⟩] := by
    simp only [rootFit] at isFound
    split at isFound
    · rename_i isNames
      exact ⟨isNames, (Option.some.inj isFound).symm⟩
    · cases isFound
  have outside : ¬InRegions [⟨56, 28⟩, ⟨456, 16⟩, ⟨956, 12⟩] byte := by
    rintro ⟨region, isRegion, above, below⟩
    simp only [List.mem_cons, List.not_mem_nil, or_false] at isRegion
    simp only [rootLayout] at member
    split at member
    · cases List.mem_singleton.mp member
      rcases isRegion with rfl | rfl | rfl <;> simp only at low high above below <;> omega
    · split at member
      · cases List.mem_singleton.mp member
        rcases isRegion with rfl | rfl | rfl <;> simp only at low high above below <;> omega
      · cases member
  have unnamed : rootLayout.path node ∉ [ascii "/"] := by
    simp only [rootLayout] at member ⊢
    split at member
    · rename_i isConf
      rw [isConf]
      decide
    · split at member
      · rename_i isKernel
        rw [isKernel]
        decide
      · cases member
  rw [isRoot.1, isRoot.2]
  exact ⟨fun inside => absurd inside outside, fun named => absurd named unnamed⟩

/-- The condition at an image that does not meet it. -/
theorem config_covered_root :
    ConfigCovered sampleBehind rootCalculate rootBlob rootFit rootLayout 28 ↔
      NamesReferred sampleBehind rootCalculate rootBlob rootFit rootLayout 28 :=
  config_covered_iff sampleBehind rootCalculate rootBlob rootFit rootLayout 28 rootFit_findsRegions

theorem rootFit_accepts : Accepts sampleBehind rootCalculate rootBlob rootFit 16 64 := by
  refine ⟨⟨some (ascii "b"), sampleAlgo, rootRegions, natBytes 256 (3 * 2 ^ 681)⟩, 16, rfl,
    rootSigner.verifies sampleBehind rfl rfl (if_pos ⟨rfl, rfl⟩), .inl rfl⟩

/-- A configuration is accepted whose own properties no signature covers. -/
theorem config_accepted_uncovered :
    FindsRegions rootFit rootLayout ∧
      ¬ConfigCovered sampleBehind rootCalculate rootBlob rootFit rootLayout 28 := by
  refine ⟨rootFit_findsRegions, ?_⟩
  intro covered
  have isSignature : IsSignature rootFit 28 64 := ⟨by decide, by decide⟩
  have required : RequiredKey rootBlob (ascii "conf") 16 := ⟨8, by decide, by decide, by decide⟩
  have only {key : Nat} (isRequired : RequiredKey rootBlob (ascii "conf") key) : key = 16 := by
    obtain ⟨node, isNode, member, -⟩ := isRequired
    have isSig : sigNode rootBlob = some 8 := by decide
    cases isSig.symm.trans isNode
    exact List.mem_singleton.mp member
  have accepted := fitConfigVerifyRequiredSigs_accepts.mpr fun key
      (isRequired : RequiredKey rootBlob (ascii "conf") key) =>
    ⟨64, isSignature, (only isRequired) ▸ rootFit_accepts⟩
  have checks := (@fitConfigCheckSig_ok_iff sampleBehind rootCalculate rootBlob rootFit (by decide) 16
    64).mpr rootFit_accepts
  obtain ⟨region, member, low, high⟩ := covered accepted 16 required 64 isSignature checks
    [⟨56, 28⟩, ⟨456, 16⟩, ⟨956, 12⟩] rfl 28 (by decide) ⟨96, 24⟩ (by decide) 96 (by decide) (by decide)
  simp only [List.mem_cons, List.not_mem_nil, or_false] at member
  rcases member with rfl | rfl | rfl <;> simp only at low high <;> omega

end HrppBoot.Fit
