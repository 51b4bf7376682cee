import TreeMiner.Gpu.Launched
import TreeMiner.Kernel.FirstBlocks

/-! First blocks, staged for a batch: on the device out of keys and salt, or by the host in
its slots. What the buffers held before makes no difference. -/

namespace TreeMiner.Gpu

open Host Lib
open Kernel (Bytes writeList writeList_apply)
open Kernel.Blake2b (bytesOf bytesOf_getD bytesOf_length)

variable {kernels : Kernels} {host : HashHost} {self : KernelRunner} {smooth idle : Prop}
  {state : KernelRunner → Prop} {w : World KernelRunner} {staging : Staging}

/-! ## Staging buffers -/

/-- The staging buffer has room for so many bytes. -/
def Room (staging : Staging) (length : Nat) (runner : KernelRunner) : Prop :=
  ∃ buffer, runner.staged staging = some buffer ∧ length ≤ buffer.size

/-- The staging buffer starts with these bytes. -/
def Holds (staging : Staging) (source : List UInt8) (runner : KernelRunner) : Prop :=
  ∃ buffer, runner.staged staging = some buffer ∧ source.length ≤ buffer.size ∧
    ∀ i < source.length, buffer.bytes i = source.getD i 0

/-- What is said of a runner is not about this staging buffer. -/
def Aside (staging : Staging) (state : KernelRunner → Prop) : Prop :=
  ∀ (self : KernelRunner) buffer, state self → state (self.setStaged buffer staging)

@[simp] theorem setStaged_stream (buffer : Option DeviceBuffer) :
    (self.setStaged buffer staging).stream = self.stream := by
  cases staging <;> rfl

@[simp] theorem staged_setStaged (buffer : Option DeviceBuffer) :
    (self.setStaged buffer staging).staged staging = buffer := by
  cases staging <;> rfl

theorem framed_staged {p : Option DeviceBuffer → Prop} :
    Framed fun runner => p (runner.staged staging) := by
  intro runner stream memory blocksOut
  cases staging <;> exact Iff.rfl

theorem framed_room (length : Nat) : Framed (Room staging length) :=
  framed_staged (p := fun staged => ∃ buffer, staged = some buffer ∧ length ≤ buffer.size)

theorem framed_holds (source : List UInt8) : Framed (Holds staging source) :=
  framed_staged (p := fun staged => ∃ buffer, staged = some buffer ∧
    source.length ≤ buffer.size ∧ ∀ i < source.length, buffer.bytes i = source.getD i 0)

theorem Framed.and {state' : KernelRunner → Prop} (h : Framed state) (h' : Framed state') :
    Framed fun runner => state runner ∧ state' runner :=
  fun runner stream memory blocksOut =>
    and_congr (h runner stream memory blocksOut) (h' runner stream memory blocksOut)

theorem KernelRunner.Sound.setStaged (h : self.Sound) {buffer : Option DeviceBuffer}
    (hstream : ∀ operation ∈ self.stream,
      ∀ a ∈ operation.accesses (self.setStaged buffer staging).extents, a.InBounds) :
    (self.setStaged buffer staging).Sound := by
  cases staging <;>
    exact ⟨h.shape, h.segment, h.memory, h.fits, h.blocksIn, h.blocksOut, hstream⟩

/-- A buffer of the same extent takes the place of the other. -/
theorem KernelRunner.Sound.rewrite (h : self.Sound) {buffer buffer' : DeviceBuffer}
    (hstaged : self.staged staging = some buffer) (hextent : buffer'.extent = buffer.extent) :
    (self.setStaged (some buffer') staging).Sound := by
  have hextents : (self.setStaged (some buffer') staging).extents = self.extents := by
    have hmap : (some buffer').map DeviceBuffer.extent =
        (self.staged staging).map DeviceBuffer.extent := by
      rw [hstaged, Option.map_some, Option.map_some, hextent]
    cases staging with
    | keys => exact congrArg (fun keys => { self.extents with keys }) hmap
    | salt => exact congrArg (fun salt => { self.extents with salt }) hmap
  refine h.setStaged ?_
  rw [hextents]
  exact h.stream

/-- Where nothing was allocated, no queued operation goes. -/
theorem KernelRunner.Sound.allocate (h : self.Sound) (hnone : self.staged staging = none)
    (buffer : DeviceBuffer) : (self.setStaged (some buffer) staging).Sound := by
  refine h.setStaged fun operation hmem a ha => ?_
  have hbounds := h.stream operation hmem
  cases operation with
  | firstBlocks keys salt config segmentBlocks batchSize =>
    obtain ⟨job, hjob, ha⟩ := List.mem_flatMap.1 ha
    have hjobs := fun b hb => hbounds b (List.mem_flatMap.2 ⟨job, hjob, hb⟩)
    cases staging with
    | keys =>
      have hkeys : sizeAt self.extents.keys keys = 0 := by
        change sizeAt ((self.staged .keys).map DeviceBuffer.extent) keys = 0
        rw [hnone]
        rfl
      rcases List.mem_cons.1 ha with rfl | ha
      · have hold := hjobs _ List.mem_cons_self
        unfold Access.InBounds at hold ⊢
        dsimp only at hold ⊢
        omega
      · exact hjobs a (List.mem_cons_of_mem _ ha)
    | salt =>
      have hsalt : sizeAt self.extents.salt salt = 0 := by
        change sizeAt ((self.staged .salt).map DeviceBuffer.extent) salt = 0
        rw [hnone]
        rfl
      rcases List.mem_cons.1 ha with rfl | ha
      · exact hjobs _ List.mem_cons_self
      · rcases List.mem_cons.1 ha with rfl | ha
        · have hold := hjobs _ (List.mem_cons_of_mem _ List.mem_cons_self)
          unfold Access.InBounds at hold ⊢
          dsimp only at hold ⊢
          omega
        · exact hjobs a (List.mem_cons_of_mem _ (List.mem_cons_of_mem _ ha))
  | copyInput copy => cases staging <;> exact hbounds a ha
  | oneshot segmentBlocks batchSize => cases staging <;> exact hbounds a ha
  | copyOutput copy => cases staging <;> exact hbounds a ha

/-- A freed buffer is referred to by nothing: the device has run what was queued. -/
theorem Held.free (h : Held kernels smooth idle state w) (hframed : Framed state)
    (haside : Aside staging state) : Held kernels smooth False
      (fun runner => state runner ∧ runner.staged staging = none) (w.free kernels staging) := by
  have hnone : Framed fun runner : KernelRunner => runner.staged staging = none :=
    framed_staged (p := (· = none))
  unfold World.free
  split_ifs with hlive
  · have hdrained := h.drain
    have hidle := hdrained.stream trivial
    refine (hdrained.over (hdrained.sound.setStaged ?_) (setStaged_stream none)
      ((hframed.and hnone).drained.2 ⟨haside _ _ (hframed.drained.1 hdrained.state),
        staged_setStaged none⟩)).busy
    rw [hidle]
    exact fun operation hmem => absurd hmem List.not_mem_nil
  · refine ⟨h.sound, h.log, h.turns, False.elim, h.state, hnone.drained.2 ?_⟩
    cases hstaged : w.device.staged staging with
    | none => rfl
    | some buffer =>
      rw [hstaged] at hlive
      exact absurd rfl hlive

theorem reserve_spec (hframed : Framed state) (haside : Aside staging state) (length : Nat) :
    Triple (Held kernels smooth False state) (reserve kernels staging length)
      (fun _ => Held kernels smooth False fun runner => state runner ∧ Room staging length runner)
      (Failed smooth) := by
  have hroom : Framed (Room staging length) := framed_room length
  refine Triple.get_bind fun w h => Triple.ite (fun hlarge => ?_) fun _ => ?_
  · refine Triple.pure fun s hs => hs ▸ ⟨h.sound, h.log, h.turns, h.stream, h.state,
      hroom.drained.2 ?_⟩
    cases hstaged : w.device.staged staging with
    | none =>
      rw [hstaged] at hlarge
      cases hlarge
    | some buffer =>
      rw [hstaged] at hlarge
      exact ⟨buffer, hstaged, of_decide_eq_true hlarge⟩
  · refine Triple.bind (Triple.update (Q := fun _ => Held kernels smooth False
      fun runner => state runner ∧ runner.staged staging = none) ?_) fun _ => ?_
    · rintro s rfl
      exact h.free hframed haside
    · refine turn_spec fun turn hturn => (check_spec turn _ hturn).bind fun _ => ?_
      refine Triple.update fun s hs => ?_
      obtain ⟨hstate, hnone⟩ := (hframed.and (framed_staged (p := (· = none)))).drained.1 hs.state
      refine hs.over (hs.sound.allocate hnone _) (setStaged_stream _)
        ((hframed.and hroom).drained.2 ⟨haside _ _ hstate, _, staged_setStaged _, le_rfl⟩)

/-- A copy that fits is made whole, whatever the device does meanwhile. -/
theorem copyFromHost_spec (hframed : Framed state) (haside : Aside staging state)
    (source : List UInt8) : Triple
      (Held kernels smooth False fun runner => state runner ∧ Room staging source.length runner)
      (copyFromHost kernels staging source)
      (fun _ => Held kernels smooth False fun runner => state runner ∧ Holds staging source runner)
      (Failed smooth) := by
  refine Triple.get_bind fun w h => ?_
  obtain ⟨hstate, buffer, hstaged, hfits⟩ := (hframed.and (framed_room _)).drained.1 h.state
  rw [hstaged]
  refine Triple.ite (fun hsmall => absurd hfits (Nat.not_le.2 hsmall)) fun _ => ?_
  -- while it is written, the buffer keeps its extent
  let during : KernelRunner → Prop := fun runner =>
    state runner ∧ ∃ b, runner.staged staging = some b ∧ b.extent = buffer.extent
  have hduring : Framed during := hframed.and
    (framed_staged (p := fun staged => ∃ b, staged = some b ∧ b.extent = buffer.extent))
  have hwrite : ∀ bytes (runner : KernelRunner), runner.Sound →
      during (runner.drained kernels) →
      (runner.setStaged (some { buffer with bytes }) staging).Sound ∧
        (runner.setStaged (some { buffer with bytes }) staging).stream = runner.stream ∧
        during ((runner.setStaged (some { buffer with bytes }) staging).drained kernels) := by
    intro bytes runner hsound hrunner
    obtain ⟨hrunner, b, hb, hextent⟩ := hduring.drained.1 hrunner
    exact ⟨hsound.rewrite hb hextent.symm, setStaged_stream _,
      hduring.drained.2 ⟨haside _ _ hrunner, _, staged_setStaged _, rfl⟩⟩
  refine Triple.pre (P := Held kernels smooth False during) ?_ ?_
  · refine takeTurn_spec.bind fun turn => Triple.of_start fun w hw => ?_
    refine Triple.bind (Triple.update (Q := fun _ => Held kernels smooth False during) ?_)
      fun _ => ?_
    · rintro s rfl
      exact hw.1.race hwrite _
    · refine Triple.bind (Triple.update (Q := fun _ => Held kernels smooth False fun runner =>
        state runner ∧ (turn.fails = false → Holds staging source runner)) ?_) fun _ =>
        check_passed turn _ hw.2 fun hpassed runner hrunner => ⟨hrunner.1, hrunner.2 hpassed⟩
      intro s hs
      obtain ⟨hrunner, -⟩ := hduring.drained.1 hs.state
      obtain ⟨hsound, -, -⟩ := hwrite (if turn.fails then turn.bytes
        else writeList buffer.bytes 0 source) s.device hs.sound hs.state
      refine ⟨hsound, fun a ha => ?_, hs.turns, False.elim, ?_⟩
      · rcases List.mem_append.1 ha with ha | ha
        · exact hs.log a ha
        · simp only [List.mem_cons, List.not_mem_nil, or_false] at ha
          unfold Access.InBounds
          rcases ha with rfl | rfl <;> dsimp only <;> omega
      · have hframed' : Framed fun runner =>
            state runner ∧ (turn.fails = false → Holds staging source runner) :=
          hframed.and fun runner stream memory blocksOut =>
            imp_congr_right fun _ => framed_holds source runner stream memory blocksOut
        refine hframed'.drained.2 ⟨haside _ _ hrunner, fun hpassed => ?_⟩
        refine ⟨_, staged_setStaged _, hfits, fun i hi => ?_⟩
        dsimp only
        rw [hpassed, if_neg Bool.false_ne_true, Kernel.writeList_apply,
          if_pos ⟨Nat.zero_le i, by omega⟩, Nat.sub_zero]
  · rintro s rfl
    exact ⟨h.sound, h.log, h.turns, h.stream, hduring.drained.2 ⟨hstate, buffer, hstaged, rfl⟩⟩

/-! ## First blocks by the device -/

variable {shape : Argon2Shape} {batchSize : Nat} {passwords : List String} {salt : List UInt8}

theorem deviceKeyLength_some {keyLength : Nat}
    (h : deviceKeyLength batchSize passwords salt shape = some keyLength) :
    salt.length < 2 ^ 32 ∧ keyLength < 2 ^ 32 ∧
      ∀ password ∈ passwords, (keyBytes password).length = keyLength := by
  unfold deviceKeyLength at h
  dsimp only at h
  split_ifs at h with hshape hlength hany
  cases h
  simp only [Bool.or_eq_true, decide_eq_true_eq, not_or, not_le] at hshape hlength
  refine ⟨hshape.2, hlength.2, fun password hmem => ?_⟩
  simp only [List.any_eq_true, not_exists, not_and, bne_iff_ne, ne_eq, not_not] at hany
  exact hany password hmem

/-- The first blocks of the batch, as the device derives them. -/
def deviceBytes (kernels : Kernels) (passwords : List String) (salt : List UInt8)
    (shape : Argon2Shape) : Bytes := fun i =>
  kernels.firstBlocks shape (keyBytes (passwords.getD (i / inputBytes) "")) salt (i % inputBytes)

/-- The keys of the jobs stand in the key buffer at the pitch of their length. -/
theorem staged_key {keyLength : Nat}
    (hkeys : ∀ password ∈ passwords, (keyBytes password).length = keyLength) {bytes : Bytes}
    (hholds : ∀ i < (passwords.flatMap keyBytes).length,
      bytes i = (passwords.flatMap keyBytes).getD i 0) {job : Nat} (hjob : job < passwords.length) :
    bytesOf (fun k => bytes (job * keyLength + k)) keyLength =
      keyBytes (passwords.getD job "") := by
  have hlength := flatMap_length hkeys
  have hkey : (keyBytes (passwords.getD job "")).length = keyLength := by
    rw [List.getD_eq_getElem _ _ hjob]
    exact hkeys _ (List.getElem_mem hjob)
  refine List.ext_getElem (by rw [bytesOf_length, hkey]) fun k hk hk' => ?_
  rw [bytesOf_length] at hk
  have hinside := row_end_le hjob (le_refl keyLength)
  rw [← List.getD_eq_getElem _ 0 hk', ← flatMap_getD hkeys "" 0 hjob hk,
    ← hholds _ (by rw [hlength]; omega), ← List.getD_eq_getElem _ 0, bytesOf_getD hk]

theorem staged_salt {bytes : Bytes} (hholds : ∀ i < salt.length, bytes i = salt.getD i 0) :
    bytesOf bytes salt.length = salt := by
  refine List.ext_getElem (bytesOf_length _ _) fun i hi hi' => ?_
  rw [← List.getD_eq_getElem _ 0 hi', ← hholds i hi', ← List.getD_eq_getElem _ 0,
    bytesOf_getD hi']

/-- Keys and salt in their buffers are what a launch of the batch needs. -/
theorem deviceStaged_of_holds {keyLength : Nat} (h : Asked shape passwords.length self)
    (hlength : deviceKeyLength passwords.length passwords salt shape = some keyLength)
    (hkeys : Holds .keys (passwords.flatMap keyBytes) self) (hsalt : Holds .salt salt self) :
    StagedFor kernels shape passwords.length (deviceBytes kernels passwords salt shape) self
      (some ⟨UInt32.ofNat keyLength, UInt32.ofNat salt.length, shape⟩) := by
  obtain ⟨hsaltLength, hkeyLength, hall⟩ := deviceKeyLength_some hlength
  obtain ⟨keys, hkeys, hkeySize, hkeyBytes⟩ := hkeys
  obtain ⟨saltBuffer, hsalt, hsaltSize, hsaltBytes⟩ := hsalt
  have hkeyNat : (UInt32.ofNat keyLength).toNat = keyLength := by
    rw [UInt32.toNat_ofNat']
    omega
  have hsaltNat : (UInt32.ofNat salt.length).toNat = salt.length := by
    rw [UInt32.toNat_ofNat']
    omega
  rw [flatMap_length hall] at hkeySize
  refine ⟨keys, saltBuffer, h, hkeys, hsalt, ?_, ?_, fun job hjob i hi => ?_⟩
  · rwa [hkeyNat]
  · rwa [hsaltNat]
  · have hpositive : 0 < inputBytes := by decide
    dsimp only
    rw [hkeyNat, hsaltNat, staged_key hall hkeyBytes hjob, staged_salt hsaltBytes]
    unfold deviceBytes
    rw [Nat.mul_comm, Nat.mul_add_div hpositive, Nat.mul_add_mod, Nat.div_eq_of_lt hi,
      Nat.mod_eq_of_lt hi, Nat.add_zero]

theorem framed_prepared {first : Bytes} : Framed fun runner =>
    StagedFor kernels shape batchSize first runner runner.pendingFirstBlocks :=
  fun runner => framed_stagedFor runner.pendingFirstBlocks runner

theorem aside_asked : Aside staging (Asked shape batchSize) := by
  intro runner buffer h
  cases staging <;> exact ⟨h.shapeEq, h.batchEq⟩

/-- What is staged is for this batch, or the kernel does not implement its shape. -/
theorem prepare_spec : Triple (Held kernels smooth False (Asked shape passwords.length))
    (prepareInputBlocksOnDevice kernels passwords salt shape)
    (fun supported w =>
      supported = (deviceKeyLength passwords.length passwords salt shape).isSome ∧
      Held kernels smooth False (fun runner => supported = true →
        StagedFor kernels shape passwords.length (deviceBytes kernels passwords salt shape) runner
          runner.pendingFirstBlocks) w) (Failed smooth) := by
  have hframed : Framed (Asked shape passwords.length) := framed_asked
  refine Triple.bind (Triple.update (Q := fun _ =>
    Held kernels smooth False (Asked shape passwords.length)) ?_) fun _ => ?_
  · intro w h
    have hasked := h.state.of_drained
    exact h.over (h.sound.prepared _ _) rfl (hframed.drained.2 ⟨hasked.shapeEq, hasked.batchEq⟩)
  · refine Triple.get_bind fun w h => ?_
    rw [h.state.of_drained.batchEq]
    cases hlength : deviceKeyLength passwords.length passwords salt shape with
    | none =>
      refine Triple.pure fun s hs => ⟨rfl, hs ▸ h.imp fun runner _ => nofun⟩
    | some keyLength =>
      let flatKeys := passwords.flatMap keyBytes
      have hroomAside : Aside .salt fun runner => Asked shape passwords.length runner ∧
          Room .keys flatKeys.length runner := fun runner buffer hr => ⟨aside_asked _ _ hr.1, hr.2⟩
      have hsaltAside : Aside .keys fun runner => Asked shape passwords.length runner ∧
          Room .salt salt.length runner := fun runner buffer hr => ⟨aside_asked _ _ hr.1, hr.2⟩
      have hkeysAside : Aside .salt fun runner => Asked shape passwords.length runner ∧
          Holds .keys flatKeys runner := fun runner buffer hr => ⟨aside_asked _ _ hr.1, hr.2⟩
      refine Triple.pre (P := Held kernels smooth False (Asked shape passwords.length)) ?_
        fun s hs => hs ▸ h
      refine (reserve_spec hframed aside_asked flatKeys.length).bind fun _ => ?_
      refine (reserve_spec (hframed.and (framed_room _)) hroomAside salt.length).bind fun _ => ?_
      refine Triple.bind (Triple.pre
        (copyFromHost_spec (hframed.and (framed_room _)) hsaltAside flatKeys)
        fun s hs => hs.imp fun runner hr => ⟨⟨hr.1.1, hr.2⟩, hr.1.2⟩) fun _ => ?_
      refine Triple.bind (Triple.pre
        (copyFromHost_spec (hframed.and (framed_holds flatKeys)) hkeysAside salt)
        fun s hs => hs.imp fun runner hr => ⟨⟨hr.1.1, hr.2⟩, hr.1.2⟩) fun _ => ?_
      refine Triple.bind (Triple.update (Q := fun _ => Held kernels smooth False fun runner =>
        StagedFor kernels shape passwords.length (deviceBytes kernels passwords salt shape) runner
          runner.pendingFirstBlocks) ?_)
        fun _ => Triple.pure fun s hs => ⟨rfl, hs.imp fun runner hr _ => hr⟩
      intro s hs
      have hstaged := (hframed.and (@framed_holds .keys flatKeys)).and (@framed_holds .salt salt)
      obtain ⟨⟨hasked, hkeys⟩, hsalt⟩ := hstaged.drained.1 hs.state
      refine hs.over (hs.sound.prepared _ _) rfl (framed_prepared.drained.2 ?_)
      exact deviceStaged_of_holds ⟨hasked.shapeEq, hasked.batchEq⟩ hlength hkeys hsalt

/-! ## First blocks by the host -/

/-- The slots of a batch are filled whole, whatever stood in them. -/
theorem fillSlots_eq {out out' : List UInt8}
    (hlen : out.length = passwords.length * slotBytes shape)
    (hlen' : out'.length = passwords.length * slotBytes shape) :
    fillSlots host salt shape passwords out = fillSlots host salt shape passwords out' := by
  induction passwords generalizing out out' with
  | nil =>
    rw [List.length_nil, Nat.zero_mul] at hlen hlen'
    rw [List.eq_nil_of_length_eq_zero hlen, List.eq_nil_of_length_eq_zero hlen']
  | cons password passwords ih =>
    rw [List.length_cons, Nat.succ_mul] at hlen hlen'
    have htake : (out.take (slotBytes shape)).length = (out'.take (slotBytes shape)).length := by
      rw [List.length_take, List.length_take, hlen, hlen']
    have hrest : fillSlots host salt shape passwords (out.drop (slotBytes shape)) =
        fillSlots host salt shape passwords (out'.drop (slotBytes shape)) :=
      ih (by rw [List.length_drop]; omega) (by rw [List.length_drop]; omega)
    unfold fillSlots
    rw [host.filled _ _ (keyBytes password) salt shape htake, hrest]

theorem fillSlots_length {out bytes : List UInt8}
    (hlen : out.length = passwords.length * slotBytes shape)
    (h : fillSlots host salt shape passwords out = .ok bytes) : bytes.length = out.length := by
  induction passwords generalizing out bytes with
  | nil =>
    cases h
    rfl
  | cons password passwords ih =>
    rw [List.length_cons, Nat.succ_mul] at hlen
    unfold fillSlots at h
    cases hslot : host.fillFirstBlocks (out.take (slotBytes shape)) (keyBytes password) salt
      shape with
    | error failure =>
      rw [hslot] at h
      cases h
    | ok slot =>
      rw [hslot] at h
      dsimp only at h
      cases hrest : fillSlots host salt shape passwords (out.drop (slotBytes shape)) with
      | error failure =>
        rw [hrest] at h
        cases h
      | ok rest =>
        rw [hrest] at h
        cases h
        have hsize := host.size hslot
        have hrestSize := ih (by rw [List.length_drop]; omega) hrest
        rw [List.length_take] at hsize
        rw [List.length_drop] at hrestSize
        rw [List.length_append]
        omega

theorem fillFirstBlocksBatch_eq {out out' : List UInt8} (hlen : out.length = out'.length) :
    fillFirstBlocksBatch host salt shape out passwords =
      fillFirstBlocksBatch host salt shape out' passwords := by
  unfold fillFirstBlocksBatch
  dsimp only
  rw [hlen]
  split_ifs with hwant hslot
  · rfl
  · rfl
  · rw [not_not] at hwant
    exact fillSlots_eq (hlen.trans hwant) hwant

theorem fillFirstBlocksBatch_length {out bytes : List UInt8}
    (h : fillFirstBlocksBatch host salt shape out passwords = .ok bytes) :
    bytes.length = out.length := by
  unfold fillFirstBlocksBatch at h
  dsimp only at h
  split_ifs at h with hwant hslot
  exact fillSlots_length (not_not.1 hwant) h

/-- The slots as the host fills fresh ones. -/
def freshSlots (host : HashHost) (passwords : List String) (salt : List UInt8)
    (shape : Argon2Shape) : Except (Failure String) (List UInt8) :=
  fillFirstBlocksBatch host salt shape (List.replicate (passwords.length * inputBytes) 0) passwords

/-- A runner set up for a batch, with no first blocks pending on the device. -/
def Ready (shape : Argon2Shape) (batchSize : Nat) (runner : KernelRunner) : Prop :=
  Asked shape batchSize runner ∧ runner.pendingFirstBlocks = none

theorem framed_ready : Framed (Ready shape batchSize) :=
  framed_asked.and fun _ _ _ _ => Iff.rfl

theorem KernelRunner.Sound.setBlocksIn (h : self.Sound) (bytes : Bytes) :
    (self.setBlocksIn bytes).Sound :=
  ⟨h.shape, h.segment, h.memory, h.fits, h.blocksIn, h.blocksOut, h.stream⟩

theorem inputBlocksBatchMut_spec : Triple
    (Held kernels smooth idle (Ready shape batchSize)) (inputBlocksBatchMut batchSize)
    (fun slots w => slots.length = batchSize * inputBytes ∧
      Held kernels smooth idle (Ready shape batchSize) w) (Failed smooth) := by
  refine Triple.get_bind fun w h => Triple.ite (fun hsmall => ?_) fun _ => ?_
  · have hsize := h.sound.blocksIn
    rw [h.state.1.of_drained.batchEq] at hsize
    omega
  · exact Triple.pure fun s hs => ⟨bytesOf_length _ _, hs ▸ h⟩

/-- Once the host has filled the slots they hold its first blocks, and copies that ran
meanwhile make no difference. -/
theorem fillInputBlocks_spec
    (hsmooth : smooth → ∃ bytes, freshSlots host passwords salt shape = .ok bytes) :
    Triple (Held kernels smooth False (Ready shape passwords.length))
      (fillInputBlocks kernels host passwords salt shape)
      (fun _ w => ∃ bytes, freshSlots host passwords salt shape = .ok bytes ∧
        Held kernels smooth False (fun runner => StagedFor kernels shape passwords.length
          (fun i => bytes.getD i 0) runner runner.pendingFirstBlocks) w) (Failed smooth) := by
  refine inputBlocksBatchMut_spec.bind fun slots => Triple.of_start fun w hw => ?_
  obtain ⟨hslots, hw⟩ := hw
  have hfill : fillFirstBlocksBatch host salt shape slots passwords =
      freshSlots host passwords salt shape :=
    fillFirstBlocksBatch_eq (by rw [hslots, List.length_replicate])
  have hwrite : ∀ bytes (runner : KernelRunner), runner.Sound →
      Ready shape passwords.length (runner.drained kernels) →
      (runner.setBlocksIn bytes).Sound ∧ (runner.setBlocksIn bytes).stream = runner.stream ∧
        Ready shape passwords.length ((runner.setBlocksIn bytes).drained kernels) := by
    intro bytes runner hsound hready
    obtain ⟨hasked, hpending⟩ := framed_ready.drained.1 hready
    exact ⟨hsound.setBlocksIn bytes, rfl,
      framed_ready.drained.2 ⟨⟨hasked.shapeEq, hasked.batchEq⟩, hpending⟩⟩
  refine Triple.pre (P := Held kernels smooth False (Ready shape passwords.length)) ?_
    fun s hs => hs ▸ hw
  refine takeTurn_spec.bind fun turn => Triple.of_start fun w hw => ?_
  refine Triple.bind (Triple.update
    (Q := fun _ => Held kernels smooth False (Ready shape passwords.length)) ?_) fun _ => ?_
  · rintro s rfl
    exact hw.1.race hwrite _
  · rw [hfill]
    cases hfresh : freshSlots host passwords salt shape with
    | error failure =>
      refine Triple.bind (Triple.update (Q := fun _ => Failed smooth) fun s hs => ?_)
        fun _ => Triple.throw fun s hs => hs
      refine ⟨hs.sound.setBlocksIn _, hs.log, fun hday => ?_⟩
      obtain ⟨bytes, hbytes⟩ := hsmooth hday
      rw [hfresh] at hbytes
      cases hbytes
    | ok bytes =>
      refine Triple.ite (fun hfails => ?_) fun _ => Triple.update fun s hs => ?_
      · refine Triple.bind (Triple.update (Q := fun _ => Failed smooth) fun s hs => ?_)
          fun _ => Triple.throw fun s hs => hs
        refine ⟨hs.sound.setBlocksIn _, hs.log, fun hday => ?_⟩
        rw [hw.2 hday] at hfails
        cases hfails
      · obtain ⟨hasked, hpending⟩ := framed_ready.drained.1 hs.state
        have hlength : bytes.length = passwords.length * inputBytes :=
          (fillFirstBlocksBatch_length hfresh).trans List.length_replicate
        refine ⟨bytes, rfl, hs.over (hs.sound.setBlocksIn _) rfl (framed_prepared.drained.2 ?_)⟩
        change StagedFor kernels shape passwords.length (fun i => bytes.getD i 0) _
          s.device.pendingFirstBlocks
        rw [hpending]
        refine ⟨⟨hasked.shapeEq, hasked.batchEq⟩, fun i hi => ?_⟩
        change writeList s.device.blocksIn.bytes 0 bytes i = bytes.getD i 0
        rw [Kernel.writeList_apply, if_pos ⟨Nat.zero_le i, by omega⟩, Nat.sub_zero]

/-! ## Either way -/

theorem firstBytes_device {request : HashRequest} (hdevice : request.gpuFirstBlocks = true) :
    firstBytes kernels host request salt shape =
      match deviceKeyLength request.passwords.length request.passwords salt shape with
      | none => .error
        (.invalid "the device first-blocks kernel does not support this batch shape")
      | some _ => .ok (deviceBytes kernels request.passwords salt shape) := if_pos hdevice

theorem firstBytes_host {request : HashRequest} (hhost : ¬ request.gpuFirstBlocks = true) :
    firstBytes kernels host request salt shape =
      match freshSlots host request.passwords salt shape with
      | .error failure => .error (hostError failure)
      | .ok bytes => .ok fun i => bytes.getD i 0 := if_neg hhost

/-- What is staged for a request are its first blocks. -/
theorem stageFirstBlocks_spec {request : HashRequest}
    (hsmooth : smooth → ∃ first, firstBytes kernels host request salt shape = .ok first) :
    Triple (Held kernels smooth False (Ready shape request.passwords.length))
      (stageFirstBlocks kernels host request salt shape)
      (fun _ w => ∃ first, firstBytes kernels host request salt shape = .ok first ∧
        Held kernels smooth False (fun runner => StagedFor kernels shape request.passwords.length
          first runner runner.pendingFirstBlocks) w) (Failed smooth) := by
  refine Triple.ite (fun hdevice => ?_) fun hhost => ?_
  · refine Triple.bind (Triple.pre prepare_spec fun s hs => hs.imp fun runner hr => hr.1)
      fun supported => Triple.ite (fun hsupported => ?_) fun hunsupported => ?_
    · refine Triple.pure fun s hs => ⟨_, ?_, hs.2.imp fun runner hr => hr hsupported⟩
      obtain ⟨keyLength, hlength⟩ := Option.isSome_iff_exists.1 (hs.1.symm.trans hsupported)
      rw [firstBytes_device hdevice, hlength]
    · refine Triple.throw fun s hs => hs.2.failed fun hday => hunsupported ?_
      obtain ⟨first, hok⟩ := hsmooth hday
      rw [hs.1]
      cases hlength : deviceKeyLength request.passwords.length request.passwords salt shape with
      | none =>
        rw [firstBytes_device hdevice, hlength] at hok
        cases hok
      | some keyLength => rfl
  · refine Triple.post (fillInputBlocks_spec fun hday => ?_) ?_
    · obtain ⟨first, hok⟩ := hsmooth hday
      cases hfresh : freshSlots host request.passwords salt shape with
      | error failure =>
        rw [firstBytes_host hhost, hfresh] at hok
        cases hok
      | ok bytes => exact ⟨bytes, rfl⟩
    · rintro - s ⟨bytes, hfresh, hs⟩
      refine ⟨_, ?_, hs⟩
      rw [firstBytes_host hhost, hfresh]

end TreeMiner.Gpu
