/-
The configuration string.

`cache_config::init` scans its string with one `sscanf`, and the guide documents a format for it:
`<cache_type>:<nsets>:<bsize>:<assoc>,<rep>:<wr>:<alloc>:<wr_alloc>:<set_idx>,
<mshr>:<N>:<merge>,<mq>`
with an optional `,<data_port_width>`.  The two differ.  After the miss queue the scan wants a colon
and the entries of a result FIFO before the width, and twelve conversions are enough for it.

* `OpenCache.CacheConfig.initString` — `cache_config::init`, with the scan;
* `OpenCache.DocumentedConfig` — a string of the documented format, and what it means;
* `OpenCache.CacheConfig.init_scanned` — what `init` makes of a documented string;
* `OpenCache.CacheConfig.init_of_constructed` — which fields depend on what was there before;
* `OpenCache.init_follows_documentation_iff` — when `init` follows the documented format;
* `OpenCache.documented_width_is_ignored` — three strings for which it does not.
-/

import OpenCache.Config
import OpenCache.Scanf

set_option relaxedAutoImplicit false
set_option autoImplicit false

namespace OpenCache

/-! ### The scan -/

namespace CacheConfig

/-- The format of `init`. -/
def initFormat : List Char := "%c:%u:%u:%u,%c:%c:%c:%c:%c,%c:%u:%u,%u:%u,%u".toList

/-- The values that the scan of `init` assigns. -/
def scanString (config : List Char) : List Scanf.Value :=
  Scanf.scan (Scanf.directives initFormat) config

end CacheConfig

/-- The variables of `init` after the scan, which has assigned the first twelve at least. -/
def ScannedConfig.ofValues (values : List Scanf.Value) : ScannedConfig :=
  let char := fun i : ℕ => (values[i]?.bind Scanf.Value.char?).getD '\x00'
  let num := fun i : ℕ => values[i]?.bind Scanf.Value.num?
  { ct := char 0
    nset := (num 1).getD 0
    lineSz := (num 2).getD 0
    assoc := (num 3).getD 0
    rp := char 4
    wp := char 5
    ap := char 6
    wap := char 7
    sif := char 8
    mshrType := char 9
    mshrEntries := (num 10).getD 0
    mshrMaxMerge := (num 11).getD 0
    missQueueSize := num 12
    resultFifoEntries := num 13
    dataPortWidth := num 14 }

/-- What `init` leaves: a disabled cache, or a valid configuration. -/
inductive Configured
  | disabled
  | valid (c : CacheConfig)

namespace CacheConfig

/-- `cache_config::init`. -/
def initString (old : CacheConfig) (config : List Char) : Step Configured :=
  let values := scanString config
  if values.length < 12 then
    if config = "none".toList then .ok .disabled else .error .configInit
  else do
    let c ← init old (ScannedConfig.ofValues values)
    return .valid c

/-- The members that the constructor of `cache_config` sets; it leaves the others as they are. -/
structure Constructed (c : CacheConfig) : Prop where
  dataPortWidth : c.dataPortWidth = 0
  deferHitResponse : c.deferHitResponse = true
  hitResponseQueueSize : c.hitResponseQueueSize = 16
  setIndexFunction : c.setIndexFunction = .linearSetFunction
  isStreaming : c.isStreaming = false
  wrPercent : c.wrPercent = 0

end CacheConfig

/-! ### The documented format -/

/-- The letter of a cache type. -/
def CacheType.letter : CacheType → Char
  | .normal => 'N'
  | .sector => 'S'

/-- The letter of a replacement policy. -/
def ReplacementPolicy.letter : ReplacementPolicy → Char
  | .lru => 'L'
  | .fifo => 'F'

/-- The letter of a write policy. -/
def WritePolicy.letter : WritePolicy → Char
  | .readOnly => 'R'
  | .writeBack => 'B'
  | .writeThrough => 'T'
  | .writeEvict => 'E'
  | .localWbGlobalWt => 'L'

/-- The letter of an allocation policy. -/
def AllocationPolicy.letter : AllocationPolicy → Char
  | .onMiss => 'm'
  | .onFill => 'f'
  | .streaming => 's'

/-- The letter of a write allocation policy. -/
def WriteAllocatePolicy.letter : WriteAllocatePolicy → Char
  | .noWriteAllocate => 'N'
  | .writeAllocate => 'W'
  | .fetchOnWrite => 'F'
  | .lazyFetchOnRead => 'L'

/-- The letter of a set index function. -/
def SetIndexFunction.letter : SetIndexFunction → Char
  | .linearSetFunction => 'L'
  | .bitwiseXoringFunction => 'X'
  | .fermiHashSetFunction => 'H'
  | .hashIpolyFunction => 'P'
  | .customSetFunction => 'C'

/-- The letter of an MSHR type. -/
def MshrConfig.letter : MshrConfig → Char
  | .assoc => 'A'
  | .sectorAssoc => 'S'
  | .texFifo => 'F'
  | .sectorTexFifo => 'T'

/-- The tokens of a string of the documented format. -/
structure DocumentedConfig where
  cacheType : CacheType
  nsets : Scanf.Numeral
  bsize : Scanf.Numeral
  assoc : Scanf.Numeral
  rep : ReplacementPolicy
  wr : WritePolicy
  alloc : AllocationPolicy
  wrAlloc : WriteAllocatePolicy
  setIdx : SetIndexFunction
  mshr : MshrConfig
  entries : Scanf.Numeral
  merge : Scanf.Numeral
  mq : Scanf.Numeral
  dataPortWidth : Option Scanf.Numeral

namespace DocumentedConfig

/-- The string. -/
def text (d : DocumentedConfig) : List Char :=
  d.cacheType.letter :: ':' :: (d.nsets.chars ++ ':' :: (d.bsize.chars ++ ':' :: (d.assoc.chars ++
    ',' :: d.rep.letter :: ':' :: d.wr.letter :: ':' :: d.alloc.letter :: ':' ::
    d.wrAlloc.letter :: ':' :: d.setIdx.letter :: ',' :: d.mshr.letter :: ':' ::
    (d.entries.chars ++ ':' :: (d.merge.chars ++ ',' :: (d.mq.chars ++
      match d.dataPortWidth with
      | none => []
      | some width => ',' :: width.chars))))))

/-- The documented width of the data port: the one that is given, or the line size. -/
def width (d : DocumentedConfig) : ℕ := (d.dataPortWidth.map Scanf.Numeral.value).getD d.bsize.value

/-- The configuration that the guide documents: each field is what its token means, and the
logarithms, the size of an atom and the initial associativity follow.  A streaming cache is one that
allocates on fills. -/
def config (d : DocumentedConfig) (old : CacheConfig) : CacheConfig :=
  { old with
    cacheType := d.cacheType
    nset := d.nsets.value
    nsetLog2 := Nat.log2 d.nsets.value
    lineSz := d.bsize.value
    lineSzLog2 := Nat.log2 d.bsize.value
    assoc := d.assoc.value
    originalAssoc := d.assoc.value
    atomSz := if d.cacheType = .sector then sectorSize else d.bsize.value
    isStreaming := decide (d.alloc = .streaming)
    replacementPolicy := d.rep
    writePolicy := d.wr
    allocPolicy := if d.alloc = .streaming then .onFill else d.alloc
    writeAllocPolicy := d.wrAlloc
    mshrType := d.mshr
    setIndexFunction := d.setIdx
    mshrEntries := d.entries.value
    mshrMaxMerge := d.merge.value
    missQueueSize := d.mq.value
    dataPortWidth := d.width }

/-- The guide does not list the configuration as one that `init` refuses, and a line has a byte at
least. -/
structure Legal (d : DocumentedConfig) : Prop where
  writeBack : d.wr = .writeBack → d.alloc = .onMiss
  fetch : d.wrAlloc = .fetchOnWrite ∨ d.wrAlloc = .lazyFetchOnRead → d.alloc = .onMiss
  sector : d.cacheType = .sector → d.bsize.value = sectorSize * sectorChunckSize
  line : d.bsize.value ≠ 0

end DocumentedConfig

/-! ### The scan of a documented string -/

section Letters

@[simp] theorem scanCacheType_letter (x : CacheType) :
    CacheConfig.scanCacheType x.letter = .ok x := by
  cases x <;> rfl

@[simp] theorem scanReplacementPolicy_letter (x : ReplacementPolicy) :
    CacheConfig.scanReplacementPolicy x.letter = .ok x := by
  cases x <;> rfl

@[simp] theorem scanWritePolicy_letter (x : WritePolicy) :
    CacheConfig.scanWritePolicy x.letter = .ok x := by
  cases x <;> rfl

@[simp] theorem scanAllocPolicy_letter (x : AllocationPolicy) :
    CacheConfig.scanAllocPolicy x.letter = .ok x := by
  cases x <;> rfl

@[simp] theorem scanWriteAllocPolicy_letter (x : WriteAllocatePolicy) :
    CacheConfig.scanWriteAllocPolicy x.letter = .ok x := by
  cases x <;> rfl

@[simp] theorem scanSetIndexFunction_letter (x : SetIndexFunction) :
    CacheConfig.scanSetIndexFunction x.letter = .ok x := by
  cases x <;> rfl

/-- Without the entries of a result FIFO there is no texture MSHR. -/
theorem scanMshrType_letter {ntok : ℕ} (hntok : ntok ≠ 14) (x : MshrConfig) :
    CacheConfig.scanMshrType ntok x.letter =
      if x = .assoc ∨ x = .sectorAssoc then .ok x else .error .configInit := by
  cases x with
  | assoc => rfl
  | sectorAssoc => rfl
  | texFifo => exact if_neg hntok
  | sectorTexFifo => exact if_neg hntok

end Letters

namespace DocumentedConfig

/-- What the scan assigns: all but the width, which follows a comma where the scan wants a colon. -/
def scanned (d : DocumentedConfig) : ScannedConfig where
  ct := d.cacheType.letter
  nset := d.nsets.value
  lineSz := d.bsize.value
  assoc := d.assoc.value
  rp := d.rep.letter
  wp := d.wr.letter
  ap := d.alloc.letter
  wap := d.wrAlloc.letter
  sif := d.setIdx.letter
  mshrType := d.mshr.letter
  mshrEntries := d.entries.value
  mshrMaxMerge := d.merge.value
  missQueueSize := some d.mq.value
  resultFifoEntries := none
  dataPortWidth := none

theorem scanString_text (d : DocumentedConfig) :
    CacheConfig.scanString d.text = [.char d.cacheType.letter, .num d.nsets.value,
      .num d.bsize.value, .num d.assoc.value, .char d.rep.letter, .char d.wr.letter,
      .char d.alloc.letter, .char d.wrAlloc.letter, .char d.setIdx.letter, .char d.mshr.letter,
      .num d.entries.value, .num d.merge.value, .num d.mq.value] := by
  have hcolon : ∀ (s : List Char), ∀ c ∈ (':' :: s).head?, c.isDigit = false := by
    rintro s c ⟨⟩
    decide
  have hcomma : ∀ (s : List Char), ∀ c ∈ (',' :: s).head?, c.isDigit = false := by
    rintro s c ⟨⟩
    decide
  -- the string ends, or goes on with a comma
  obtain ⟨rest, hrest, hdigit, hstop⟩ : ∃ rest : List Char,
      (match d.dataPortWidth with
        | none => []
        | some width => ',' :: width.chars) = rest ∧
      (∀ c ∈ rest.head?, c.isDigit = false) ∧
      ∀ ds, Scanf.scan (.lit ':' :: ds) rest = [] := by
    cases d.dataPortWidth with
    | none => exact ⟨[], rfl, by simp, fun ds => Scanf.scan_nil _⟩
    | some width => exact ⟨_, rfl, hcomma _, fun ds => Scanf.scan_lit_of_ne (by decide)⟩
  have hformat : Scanf.directives CacheConfig.initFormat =
      [.char, .lit ':', .unsigned, .lit ':', .unsigned, .lit ':', .unsigned, .lit ',', .char,
        .lit ':', .char, .lit ':', .char, .lit ':', .char, .lit ':', .char, .lit ',', .char,
        .lit ':', .unsigned, .lit ':', .unsigned, .lit ',', .unsigned, .lit ':', .unsigned,
        .lit ',', .unsigned] := by
    decide
  rw [CacheConfig.scanString, hformat, text, hrest]
  simp only [Scanf.scan_char, Scanf.scan_lit_self, Scanf.scan_numeral _ (hcolon _),
    Scanf.scan_numeral _ (hcomma _), Scanf.scan_numeral _ hdigit, hstop]

/-- The legal configurations are those that pass the checks of `init`. -/
theorem legal_iff {d : DocumentedConfig} : d.Legal ↔
    ¬(((if d.alloc = .streaming then .onFill else d.alloc) = AllocationPolicy.onFill ∨
        (if d.alloc = .streaming then .onFill else d.alloc) = AllocationPolicy.streaming) ∧
        d.wr = .writeBack) ∧
      ¬((d.wrAlloc = .fetchOnWrite ∨ d.wrAlloc = .lazyFetchOnRead) ∧
        (if d.alloc = .streaming then .onFill else d.alloc) = AllocationPolicy.onFill) ∧
      (d.cacheType = .sector → d.bsize.value / sectorSize = sectorChunckSize ∧
        d.bsize.value % sectorSize = 0) ∧
      d.bsize.value ≠ 0 := by
  have hsize : d.bsize.value / sectorSize = sectorChunckSize ∧ d.bsize.value % sectorSize = 0 ↔
      d.bsize.value = sectorSize * sectorChunckSize := by
    simp only [sectorSize, sectorChunckSize]
    omega
  have halloc : d.alloc = .onMiss ∨
      (if d.alloc = .streaming then .onFill else d.alloc) = AllocationPolicy.onFill := by
    cases d.alloc <;> simp
  constructor
  · rintro ⟨hwb, hfetch, hsector, hline⟩
    refine ⟨fun h => ?_, fun h => ?_, fun hs => hsize.2 (hsector hs), hline⟩
    · rw [hwb h.2] at h
      simp at h
    · rw [hfetch h.1] at h
      simp at h
  · rintro ⟨hwb, hfetch, hsector, hline⟩
    refine ⟨fun h => ?_, fun h => ?_, fun hs => hsize.1 (hsector hs), hline⟩
    · exact halloc.resolve_right fun hfill => hwb ⟨Or.inl hfill, h⟩
    · exact halloc.resolve_right fun hfill => hfetch ⟨h, hfill⟩

theorem ofValues_scanString_text (d : DocumentedConfig) :
    ScannedConfig.ofValues (CacheConfig.scanString d.text) = d.scanned := by
  rw [scanString_text]
  rfl

end DocumentedConfig

namespace CacheConfig

/-! ### What `init` makes of it -/

/-- **What `init` makes of a documented string**, in an object that was just constructed: the width
is the line size, whatever the string says. -/
theorem init_scanned {old : CacheConfig} (hold : old.Constructed) (d : DocumentedConfig)
    (c : CacheConfig) : init old d.scanned = .ok c ↔
      d.Legal ∧ (d.mshr = .assoc ∨ d.mshr = .sectorAssoc) ∧
        c = { d.config old with dataPortWidth := d.bsize.value } := by
  have hntok : d.scanned.ntok = 13 := rfl
  rw [init, hntok]
  simp only [DocumentedConfig.scanned, scanCacheType_letter, scanReplacementPolicy_letter,
    scanWritePolicy_letter, scanAllocPolicy_letter, scanWriteAllocPolicy_letter,
    scanSetIndexFunction_letter, scanMshrType_letter (show 13 ≠ 14 by decide), hold.dataPortWidth,
    hold.isStreaming, Option.getD_none, Option.getD_some, bind_eq_ok, Except.ok.injEq,
    exists_eq_left', assertThat_eq_ok]
  -- thirteen conversions do not reach the fields of the texture cache, nor the width
  constructor
  · rintro ⟨mshr, hmshr, _, hwb, _, hfetch, _, hsector, _, hwidth, hc⟩
    split at hmshr
    · next htype =>
        cases hmshr
        cases hc
        refine ⟨DocumentedConfig.legal_iff.2 ⟨hwb, hfetch, assertThat_eq_ok.1 hsector, hwidth.1⟩,
          htype, ?_⟩
        simp [DocumentedConfig.config]
    · cases hmshr
  · rintro ⟨hlegal, htype, rfl⟩
    obtain ⟨hwb, hfetch, hsector, hline⟩ := DocumentedConfig.legal_iff.1 hlegal
    refine ⟨d.mshr, if_pos htype, (), hwb, (), hfetch, (), assertThat_of _ hsector, (),
      ⟨hline, Nat.mod_self _⟩, ?_⟩
    simp [DocumentedConfig.config]
    rfl

/-- A documented string gets the documented meaning unless it asks for another width. -/
theorem initString_text {old : CacheConfig} (hold : old.Constructed) (d : DocumentedConfig) :
    initString old d.text = .ok (.valid (d.config old)) ↔
      d.Legal ∧ (d.mshr = .assoc ∨ d.mshr = .sectorAssoc) ∧ d.width = d.bsize.value := by
  have hlength : ¬(scanString d.text).length < 12 := by
    rw [d.scanString_text]
    simp
  rw [initString]
  simp only [if_neg hlength]
  rw [d.ofValues_scanString_text, bind_eq_ok]
  constructor
  · rintro ⟨c, hinit, hc⟩
    cases hc
    obtain ⟨hlegal, htype, hc⟩ := (init_scanned hold d _).1 hinit
    exact ⟨hlegal, htype, congrArg dataPortWidth hc⟩
  · rintro ⟨hlegal, htype, hwidth⟩
    refine ⟨d.config old, (init_scanned hold d _).2 ⟨hlegal, htype, ?_⟩, rfl⟩
    rw [← hwidth]
    rfl

end CacheConfig

/-! ### What was there before -/

/-- The two members that the scan may not reach, where `missQueueSize` and `resultFifoEntries` were
there before. -/
def ScannedConfig.fillIn (t : ScannedConfig) (missQueueSize resultFifoEntries : ℕ)
    (c : CacheConfig) : CacheConfig :=
  { c with
    missQueueSize := t.missQueueSize.getD missQueueSize
    resultFifoEntries := t.resultFifoEntries.getD resultFifoEntries }

namespace CacheConfig

/-- **Two members keep what was there before**, when the scan does not reach them: all the others
come from the string. -/
theorem init_of_constructed {old old' : CacheConfig} (hold : old.Constructed)
    (hold' : old'.Constructed) (t : ScannedConfig) :
    init old' t = (init old t).map (t.fillIn old'.missQueueSize old'.resultFifoEntries) := by
  change _ = (fun c : CacheConfig => _) <$> init old t
  unfold init
  simp only [hold.dataPortWidth, hold'.dataPortWidth, hold.isStreaming, hold'.isStreaming, map_bind]
  refine bind_congr fun _ => bind_congr fun _ => bind_congr fun _ => bind_congr fun _ =>
    bind_congr fun _ => bind_congr fun _ => bind_congr fun _ => bind_congr fun _ =>
    bind_congr fun _ => bind_congr fun _ => bind_congr fun _ => ?_
  rw [map_pure, ScannedConfig.fillIn, hold.deferHitResponse, hold'.deferHitResponse,
    hold.hitResponseQueueSize, hold'.hitResponseQueueSize, hold.wrPercent, hold'.wrPercent]

/-- A number is there when the scan has reached it. -/
theorem num_isSome {config : List Char} {i : ℕ}
    (hkind : (Scanf.conversions (Scanf.directives initFormat))[i]? = some .unsigned) :
    ((scanString config)[i]?.bind Scanf.Value.num?).isSome = true ↔
      i < (scanString config).length := by
  obtain ⟨rest, hkinds⟩ := Scanf.scan_kinds (Scanf.directives initFormat) config
  change (scanString config).map _ ++ rest = _ at hkinds
  by_cases hi : i < (scanString config).length
  · refine iff_of_true ?_ hi
    rw [← hkinds, List.getElem?_append_left (by rwa [List.length_map]), List.getElem?_map,
      List.getElem?_eq_getElem hi] at hkind
    rw [List.getElem?_eq_getElem hi]
    have hvalue := Option.some_inj.1 hkind
    cases hv : (scanString config)[i] with
    | num n => rfl
    | char x =>
        rw [hv] at hvalue
        cases hvalue
  · refine iff_of_false ?_ hi
    rw [List.getElem?_eq_none (Nat.le_of_not_lt hi)]
    exact Bool.false_ne_true

theorem missQueueSize_isSome (config : List Char) :
    (ScannedConfig.ofValues (scanString config)).missQueueSize.isSome = true ↔
      13 ≤ (scanString config).length :=
  @num_isSome config 12 (by decide)

theorem resultFifoEntries_isSome (config : List Char) :
    (ScannedConfig.ofValues (scanString config)).resultFifoEntries.isSome = true ↔
      14 ≤ (scanString config).length :=
  @num_isSome config 13 (by decide)

/-- The string leaves a valid configuration. -/
theorem initString_eq_valid {old c : CacheConfig} {config : List Char} :
    initString old config = .ok (.valid c) ↔ 12 ≤ (scanString config).length ∧
      init old (ScannedConfig.ofValues (scanString config)) = .ok c := by
  rw [initString]
  split
  · next hshort =>
      refine iff_of_false ?_ fun h => absurd h.1 (Nat.not_le.2 hshort)
      split <;> simp
  · next hlong =>
      rw [bind_eq_ok]
      constructor
      · rintro ⟨c, hinit, hc⟩
        cases hc
        exact ⟨Nat.le_of_not_lt hlong, hinit⟩
      · exact fun h => ⟨c, h.2, rfl⟩

/-- What is seen of the configuration after `init` does not depend on what was there before. -/
def SetFromString {α : Type} (view : CacheConfig → α) (config : List Char) : Prop :=
  ∀ old old' c c', Constructed old → Constructed old' →
    initString old config = .ok (.valid c) → initString old' config = .ok (.valid c') →
    view c = view c'

/-- **What a string that is accepted leaves to chance.** -/
theorem setFromString_iff {old c : CacheConfig} (hold : old.Constructed) {config : List Char}
    (h : initString old config = .ok (.valid c)) {α : Type} (view : CacheConfig → α) :
    SetFromString view config ↔ ∀ m m' r r',
      view ((ScannedConfig.ofValues (scanString config)).fillIn m r c) =
        view ((ScannedConfig.ofValues (scanString config)).fillIn m' r' c) := by
  obtain ⟨hlength, hinit⟩ := initString_eq_valid.1 h
  have hany : ∀ {old' : CacheConfig}, old'.Constructed → init old'
      (ScannedConfig.ofValues (scanString config)) = .ok
        ((ScannedConfig.ofValues (scanString config)).fillIn old'.missQueueSize
          old'.resultFifoEntries c) := by
    intro old' hold'
    rw [init_of_constructed hold hold', hinit]
    rfl
  constructor
  · intro hset m m' r r'
    have hwith : ∀ m r, Constructed { old with missQueueSize := m, resultFifoEntries := r } :=
      fun m r => ⟨hold.1, hold.2, hold.3, hold.4, hold.5, hold.6⟩
    exact hset _ _ _ _ (hwith m r) (hwith m' r')
      (initString_eq_valid.2 ⟨hlength, hany (hwith m r)⟩)
      (initString_eq_valid.2 ⟨hlength, hany (hwith m' r')⟩)
  · intro hview old₁ old₂ c₁ c₂ hold₁ hold₂ h₁ h₂
    have hc₁ := Except.ok.inj ((initString_eq_valid.1 h₁).2.symm.trans (hany hold₁))
    have hc₂ := Except.ok.inj ((initString_eq_valid.1 h₂).2.symm.trans (hany hold₂))
    rw [hc₁, hc₂]
    exact hview _ _ _ _

/-- All but the entries of the result FIFO come from the string when the scan has reached the size
of the miss queue. -/
theorem setFromString_missQueueSize {old c : CacheConfig} (hold : old.Constructed)
    {config : List Char} (h : initString old config = .ok (.valid c)) :
    SetFromString (fun c => { c with resultFifoEntries := 0 }) config ↔
      13 ≤ (scanString config).length := by
  rw [← missQueueSize_isSome, setFromString_iff hold h]
  cases hqueue : (ScannedConfig.ofValues (scanString config)).missQueueSize with
  | none =>
      refine iff_of_false (fun hview => ?_) Bool.false_ne_true
      have hsame := congrArg missQueueSize (hview 1 2 0 0)
      simp [ScannedConfig.fillIn, hqueue] at hsame
  | some n =>
      refine iff_of_true (fun m m' r r' => ?_) rfl
      simp only [ScannedConfig.fillIn, hqueue, Option.getD_some]

/-- All the fields come from the string when the scan has reached the entries of the result FIFO. -/
theorem setFromString_all {old c : CacheConfig} (hold : old.Constructed) {config : List Char}
    (h : initString old config = .ok (.valid c)) :
    SetFromString (fun c => c) config ↔ 14 ≤ (scanString config).length := by
  have hqueue := missQueueSize_isSome config
  rw [← resultFifoEntries_isSome, setFromString_iff hold h]
  cases hfifo : (ScannedConfig.ofValues (scanString config)).resultFifoEntries with
  | none =>
      refine iff_of_false (fun hview => ?_) Bool.false_ne_true
      have hsame := congrArg resultFifoEntries (hview 0 0 1 2)
      simp [ScannedConfig.fillIn, hfifo] at hsame
  | some n =>
      have hlong : 14 ≤ (scanString config).length :=
        (resultFifoEntries_isSome config).1 (by rw [hfifo]; rfl)
      obtain ⟨k, hk⟩ := Option.isSome_iff_exists.1 (hqueue.2 (by omega))
      refine iff_of_true (fun m m' r r' => ?_) rfl
      simp only [ScannedConfig.fillIn, hfifo, hk, Option.getD_some]

end CacheConfig

open CacheConfig in
/-- **`init` follows the documented format** — each field is what its token means — exactly for the
legal configurations whose MSHRs are not texture FIFOs and that leave the width of the data port to
be the line size.  A string that is accepted leaves every field but the entries of the result FIFO
set exactly when the scan has reached the size of the miss queue, and that one too when it has
reached it. -/
theorem init_follows_documentation_iff {old : CacheConfig} (hold : old.Constructed) :
    (∀ d : DocumentedConfig, initString old d.text = .ok (.valid (d.config old)) ↔
      d.Legal ∧ (d.mshr = .assoc ∨ d.mshr = .sectorAssoc) ∧ d.width = d.bsize.value) ∧
    ∀ config c, initString old config = .ok (.valid c) →
      (SetFromString (fun c => { c with resultFifoEntries := 0 }) config ↔
        13 ≤ (scanString config).length) ∧
      (SetFromString (fun c => c) config ↔ 14 ≤ (scanString config).length) :=
  ⟨initString_text hold, fun _ _ h =>
    ⟨setFromString_missQueueSize hold h, setFromString_all hold h⟩⟩

/-- An object as the constructor leaves it, with zeros for what it does not set. -/
def CacheConfig.constructed : CacheConfig := { CacheConfig.blank with hitResponseQueueSize := 16 }

theorem CacheConfig.constructed_constructed : CacheConfig.constructed.Constructed :=
  ⟨rfl, rfl, rfl, rfl, rfl, rfl⟩

/-- The members of a valid configuration. -/
def Configured.config? : Configured → Option CacheConfig
  | .disabled => none
  | .valid c => some c

/-- `S:32:128:4,L:E:m:F:X,<mshr>:32:4,64` with an optional width, the example of the guide. -/
def DocumentedConfig.guideExample (mshr : MshrConfig) (dataPortWidth : Option Scanf.Numeral) :
    DocumentedConfig where
  cacheType := .sector
  nsets := ⟨[3, 2], by decide, by decide⟩
  bsize := ⟨[1, 2, 8], by decide, by decide⟩
  assoc := ⟨[4], by decide, by decide⟩
  rep := .lru
  wr := .writeEvict
  alloc := .onMiss
  wrAlloc := .fetchOnWrite
  setIdx := .bitwiseXoringFunction
  mshr
  entries := ⟨[3, 2], by decide, by decide⟩
  merge := ⟨[4], by decide, by decide⟩
  mq := ⟨[6, 4], by decide, by decide⟩
  dataPortWidth

theorem DocumentedConfig.guideExample_legal (mshr : MshrConfig)
    (dataPortWidth : Option Scanf.Numeral) : (guideExample mshr dataPortWidth).Legal := by
  have hbsize : (guideExample mshr dataPortWidth).bsize.value = 128 := rfl
  refine ⟨fun _ => rfl, fun _ => rfl, fun _ => hbsize, ?_⟩
  rw [hbsize]
  decide

open CacheConfig in
/-- The example of the guide, and the same with the entries of a result FIFO and a width. -/
theorem init_follows_documentation_iff_guide :
    initString constructed "S:32:128:4,L:E:m:F:X,A:32:4,64".toList =
        .ok (.valid ((DocumentedConfig.guideExample .assoc none).config constructed)) ∧
      SetFromString (fun c => c) "S:32:128:4,L:E:m:F:X,A:32:4,64:0,32".toList := by
  obtain ⟨hdocumented, hset⟩ := init_follows_documentation_iff constructed_constructed
  constructor
  · have htext : (DocumentedConfig.guideExample .assoc none).text =
        "S:32:128:4,L:E:m:F:X,A:32:4,64".toList := by decide
    rw [← htext]
    exact (hdocumented _).2 ⟨DocumentedConfig.guideExample_legal _ _, Or.inl rfl, rfl⟩
  · have haccepted : ((initString constructed "S:32:128:4,L:E:m:F:X,A:32:4,64:0,32".toList
        ).toOption.bind Configured.config?).isSome = true := by decide
    obtain ⟨c, hc⟩ := Option.isSome_iff_exists.1 haccepted
    obtain ⟨r, hr, hrc⟩ := Option.bind_eq_some_iff.1 hc
    cases hinit : initString constructed "S:32:128:4,L:E:m:F:X,A:32:4,64:0,32".toList with
    | error e =>
        rw [hinit] at hr
        cases hr
    | ok r' =>
        rw [hinit] at hr
        cases hr
        cases r with
        | disabled => cases hrc
        | valid c' => exact (hset _ _ hinit).2.2 (by decide)

open CacheConfig in
/-- A width that is given is ignored, a texture FIFO is refused, and a string may end before the
size of the miss queue, which then is what was there before. -/
theorem documented_width_is_ignored :
    (∃ d : DocumentedConfig, d.Legal ∧ d.text = "S:32:128:4,L:E:m:F:X,A:32:4,64,32".toList ∧
      d.width = 32 ∧
      ((initString constructed d.text).toOption.bind Configured.config?).map
        (fun c => c.dataPortWidth) = some 128) ∧
    (∃ d : DocumentedConfig, d.Legal ∧ d.text = "S:32:128:4,L:E:m:F:X,F:32:4,64".toList ∧
      (initString constructed d.text).toOption.bind Configured.config? = none) ∧
    (∀ m, ({ constructed with missQueueSize := m } : CacheConfig).Constructed) ∧
      ∀ m ∈ [7, 9], ((initString { constructed with missQueueSize := m }
        "S:32:128:4,L:E:m:F:X,A:32:4".toList).toOption.bind Configured.config?).map
          (fun c => c.missQueueSize) = some m :=
  ⟨⟨.guideExample .assoc (some ⟨[3, 2], by decide, by decide⟩),
      DocumentedConfig.guideExample_legal _ _, by decide, by decide, by decide⟩,
    ⟨.guideExample .texFifo none, DocumentedConfig.guideExample_legal _ _, by decide, by decide⟩,
    fun _ => ⟨rfl, rfl, rfl, rfl, rfl, rfl⟩, by decide⟩

end OpenCache
