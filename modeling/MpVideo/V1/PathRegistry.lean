import MpVideo.Lib.Machine
import MpVideo.V1.Retransmission

/-!
# The registration of senders

`MpSenderV1` of `mp_sender_v1.cc`. A sender is registered under the path id that it was given
before, or under the next one of the allocator. It waits in `waitting_paths_` until its
application starts, and then moves to `usable_paths_`.

The allocator counts from 1 and does not know the ids that were given before. So every
registered sender has an id of its own, and is usable under it, in every state that is reached
if and only if no id that was given before is among the numbers that the allocator gives
(`registered_sound_iff`).

The sender objects are named by numbers.
-/

set_option autoImplicit false

namespace MpVideo.V1

/-- The members of `PathSenderV1` that a registration sets. -/
structure SenderId where
  pathId : UInt8 := 0
  /-- Whether `mpsender_` is set. -/
  mpsender : Bool := false

/-- The members of `MpSenderV1` that a registration uses, and the sender objects. -/
structure PathRegistry where
  senders : Nat → SenderId
  waittingPaths : SortedMap UInt8 Nat := .empty
  usablePaths : SortedMap UInt8 Nat := .empty
  pathIdAllocator : UInt32 := 1
  schedule : ScheduleV1 := {}

namespace PathRegistry

/-- The id of a sender. -/
def pathId (sender : Nat) (registry : PathRegistry) : UInt8 :=
  (registry.senders sender).pathId

/-- The first part of `RegisterSender`: a sender without an id gets the next one. -/
def allocate (sender : Nat) (registry : PathRegistry) : PathRegistry :=
  if registry.pathId sender = 0 then
    { registry with
      pathIdAllocator := registry.pathIdAllocator + 1
      senders := fun a =>
        if a = sender then
          { registry.senders a with pathId := registry.pathIdAllocator.toUInt8 }
        else registry.senders a }
  else registry

/-- The second part of `RegisterSender`: under a new id, the sender waits and is told whom to
notify. -/
def enter (sender : Nat) (registry : PathRegistry) : PathRegistry :=
  match registry.waittingPaths.find? (registry.pathId sender) with
  | some _ => registry
  | none =>
      { registry with
        waittingPaths := registry.waittingPaths.insert (registry.pathId sender) sender
        senders := fun a =>
          if a = sender then { registry.senders a with mpsender := true }
          else registry.senders a }

/-- `RegisterSender`. -/
def registerSender (sender : Nat) (registry : PathRegistry) : PathRegistry :=
  (registry.allocate sender).enter sender

/-- `OnNetworkAvailable`. The timer that it starts changes none of these members. -/
def onNetworkAvailable (pid : UInt8) (registry : PathRegistry) : PathRegistry :=
  let registry :=
    match registry.waittingPaths.find? pid with
    | none => registry
    | some sender =>
        { registry with
          waittingPaths := registry.waittingPaths.erase pid
          usablePaths := registry.usablePaths.insert pid sender }
  { registry with schedule := registry.schedule.registerPath pid }

/-- `StartApplication` of a sender. -/
def startApplication (sender : Nat) (registry : PathRegistry) : PathRegistry :=
  if (registry.senders sender).mpsender then
    registry.onNetworkAvailable (registry.pathId sender)
  else registry

theorem pathId_enter (sender a : Nat) (registry : PathRegistry) :
    (registry.enter sender).pathId a = registry.pathId a := by
  rw [enter]
  cases registry.waittingPaths.find? (registry.pathId sender) with
  | some _ => rfl
  | none =>
      simp only [pathId]
      split_ifs <;> rfl

theorem pathId_allocate (sender a : Nat) (registry : PathRegistry) :
    (registry.allocate sender).pathId a =
      if a = sender ∧ registry.pathId sender = 0 then registry.pathIdAllocator.toUInt8
      else registry.pathId a := by
  rw [allocate]
  by_cases new : registry.pathId sender = 0
  · rw [if_pos new]
    rcases eq_or_ne a sender with rfl | differ
    · rw [if_pos ⟨rfl, new⟩]
      exact congrArg SenderId.pathId (if_pos rfl)
    · rw [if_neg fun both => differ both.1]
      exact congrArg SenderId.pathId (if_neg differ)
  · rw [if_neg new, if_neg fun both => new both.2]

theorem allocate_members (sender : Nat) (registry : PathRegistry) :
    (registry.allocate sender).waittingPaths = registry.waittingPaths ∧
      (registry.allocate sender).usablePaths = registry.usablePaths ∧
      ∀ a, ((registry.allocate sender).senders a).mpsender = (registry.senders a).mpsender := by
  rw [allocate]
  split_ifs
  · refine ⟨rfl, rfl, fun a => ?_⟩
    dsimp only
    split_ifs <;> rfl
  · exact ⟨rfl, rfl, fun _ => rfl⟩

/-- A sender that waits alone under its id waits afterwards. -/
theorem find?_enter {sender : Nat} {registry : PathRegistry}
    (alone : ∀ a, registry.waittingPaths.find? (registry.pathId sender) = some a → a = sender)
    (pid : UInt8) : (registry.enter sender).waittingPaths.find? pid =
      if pid = registry.pathId sender then some sender else registry.waittingPaths.find? pid := by
  rw [enter]
  cases known : registry.waittingPaths.find? (registry.pathId sender) with
  | some a =>
      obtain rfl := alone a known
      split_ifs with own
      · rw [own, known]
      · rfl
  | none => simp only [SortedMap.find?_insert, known, Option.getD_none]

theorem enter_usablePaths (sender : Nat) (registry : PathRegistry) :
    (registry.enter sender).usablePaths = registry.usablePaths := by
  rw [enter]
  cases registry.waittingPaths.find? (registry.pathId sender) <;> rfl

theorem enter_mpsender {sender : Nat} {registry : PathRegistry}
    (known : registry.waittingPaths.find? (registry.pathId sender) ≠ none →
      (registry.senders sender).mpsender = true) (a : Nat) :
    ((registry.enter sender).senders a).mpsender = true ↔
      a = sender ∨ (registry.senders a).mpsender = true := by
  rw [enter]
  cases waits : registry.waittingPaths.find? (registry.pathId sender) with
  | some b =>
      have told := known (by rw [waits]; exact Option.some_ne_none b)
      refine ⟨.inr, ?_⟩
      rintro (rfl | already)
      · exact told
      · exact already
  | none =>
      dsimp only
      split_ifs with own
      · exact iff_of_true rfl (.inl own)
      · exact (or_iff_right own).symm

/-- A sender without an id gets the next one of the allocator. -/
theorem pathId_registerSender (sender a : Nat) (registry : PathRegistry) :
    (registry.registerSender sender).pathId a =
      if a = sender ∧ registry.pathId sender = 0 then registry.pathIdAllocator.toUInt8
      else registry.pathId a := by
  rw [registerSender, pathId_enter, pathId_allocate]

theorem usablePaths_registerSender (sender : Nat) (registry : PathRegistry) :
    (registry.registerSender sender).usablePaths = registry.usablePaths :=
  (enter_usablePaths ..).trans (allocate_members sender registry).2.1

/-- A sender that waits alone under its new id waits afterwards. -/
theorem find?_registerSender {sender : Nat} {registry : PathRegistry}
    (alone : ∀ a, registry.waittingPaths.find? ((registry.registerSender sender).pathId sender) =
      some a → a = sender) (pid : UInt8) :
    (registry.registerSender sender).waittingPaths.find? pid =
      if pid = (registry.registerSender sender).pathId sender then some sender
      else registry.waittingPaths.find? pid := by
  obtain ⟨waittingPaths, -, -⟩ := allocate_members sender registry
  rw [registerSender, pathId_enter] at *
  rw [← waittingPaths] at alone ⊢
  exact find?_enter alone pid

/-- It is told whom to notify, and the others as before. -/
theorem mpsender_registerSender {sender : Nat} {registry : PathRegistry}
    (known : registry.waittingPaths.find? ((registry.registerSender sender).pathId sender) ≠ none →
      (registry.senders sender).mpsender = true) (a : Nat) :
    ((registry.registerSender sender).senders a).mpsender = true ↔
      a = sender ∨ (registry.senders a).mpsender = true := by
  obtain ⟨waittingPaths, -, mpsender⟩ := allocate_members sender registry
  rw [registerSender, pathId_enter] at *
  rw [← waittingPaths, ← mpsender] at known
  rw [← mpsender]
  exact enter_mpsender known a

theorem pathId_startApplication (sender a : Nat) (registry : PathRegistry) :
    (registry.startApplication sender).pathId a = registry.pathId a := by
  simp only [startApplication, onNetworkAvailable]
  split_ifs
  · cases registry.waittingPaths.find? (registry.pathId sender) <;> rfl
  · rfl

/-- The sender under an id is usable afterwards, and does not wait. -/
theorem find?_onNetworkAvailable {sender : Nat} {pid : UInt8} {registry : PathRegistry}
    (located : registry.waittingPaths.find? pid = some sender ∨
      registry.waittingPaths.find? pid = none ∧ registry.usablePaths.find? pid = some sender)
    (alone : ∀ a, registry.usablePaths.find? pid = some a → a = sender) (other : UInt8) :
    (registry.onNetworkAvailable pid).usablePaths.find? other =
        (if other = pid then some sender else registry.usablePaths.find? other) ∧
      (registry.onNetworkAvailable pid).waittingPaths.find? other =
        if other = pid then none else registry.waittingPaths.find? other := by
  rw [onNetworkAvailable]
  rcases located with waits | ⟨gone, uses⟩
  · simp only [waits, SortedMap.find?_insert, SortedMap.find?_erase]
    split_ifs with own
    · refine ⟨?_, rfl⟩
      cases uses : registry.usablePaths.find? pid with
      | none => rfl
      | some a => rw [alone a uses, Option.getD_some]
    · exact ⟨rfl, rfl⟩
  · simp only [gone]
    split_ifs with own
    · rw [own]
      exact ⟨uses, gone⟩
    · exact ⟨rfl, rfl⟩

theorem onNetworkAvailable_senders (pid : UInt8) (registry : PathRegistry) :
    (registry.onNetworkAvailable pid).senders = registry.senders := by
  rw [onNetworkAvailable]
  cases registry.waittingPaths.find? pid <;> rfl

theorem pathIdAllocator_registerSender (sender : Nat) (registry : PathRegistry) :
    (registry.registerSender sender).pathIdAllocator =
      if registry.pathId sender = 0 then registry.pathIdAllocator + 1
      else registry.pathIdAllocator := by
  rw [registerSender, enter, allocate]
  split_ifs <;> split <;> rfl

theorem pathIdAllocator_startApplication (sender : Nat) (registry : PathRegistry) :
    (registry.startApplication sender).pathIdAllocator = registry.pathIdAllocator := by
  simp only [startApplication, onNetworkAvailable]
  split_ifs
  · cases registry.waittingPaths.find? (registry.pathId sender) <;> rfl
  · rfl

end PathRegistry

/-- A registry, and the senders that were registered and those of them that have started. -/
structure Registration where
  registry : PathRegistry
  registered : List Nat := []
  started : List Nat := []

/-- What happens to a registry. -/
inductive RegistryEvent where
  | registerSender (sender : Nat)
  | startApplication (sender : Nat)

namespace Registration

/-- Before any registration, some senders have an id. -/
def fresh (preset : Nat → UInt8) : Registration :=
  { registry := { senders := fun sender => { pathId := preset sender } } }

/-- What happens on an event. -/
def handle (registration : Registration) : RegistryEvent → Registration
  | .registerSender sender =>
      { registration with
        registry := registration.registry.registerSender sender
        registered :=
          if sender ∈ registration.registered then registration.registered
          else registration.registered ++ [sender] }
  | .startApplication sender =>
      { registration with
        registry := registration.registry.startApplication sender
        started :=
          if sender ∈ registration.registered then sender :: registration.started
          else registration.started }

/-- The registry as a machine. -/
def machine : Machine Registration RegistryEvent Empty :=
  ⟨fun registration event => some (registration.handle event, [])⟩

/-- Every registered sender has an id of its own and is told whom to notify, and those that
have started are usable under their ids. -/
structure Sound (registration : Registration) : Prop where
  distinct : ∀ a ∈ registration.registered, ∀ b ∈ registration.registered,
    registration.registry.pathId a = registration.registry.pathId b → a = b
  notified : ∀ a ∈ registration.registered, (registration.registry.senders a).mpsender = true
  usable : ∀ a ∈ registration.started,
    registration.registry.usablePaths.find? (registration.registry.pathId a) = some a

/-- The registered senders have different ids. -/
def Distinct (registration : Registration) : Prop :=
  ∀ a ∈ registration.registered, ∀ b ∈ registration.registered,
    registration.registry.pathId a = registration.registry.pathId b → a = b

/-- The senders that events register. -/
def sendersOf (events : List RegistryEvent) : List Nat :=
  (events.filterMap fun
    | .registerSender sender => some sender
    | .startApplication _ => none).dedup

/-- The senders without an id of their own. -/
def unset (preset : Nat → UInt8) (senders : List Nat) : List Nat :=
  senders.filter fun sender => preset sender = 0

/-- No id that was given before is one of the first numbers, as many as the senders without
an id. -/
def Clear (preset : Nat → UInt8) (senders : List Nat) : Prop :=
  ∀ a ∈ senders, preset a ≠ 0 → (unset preset senders).length < (preset a).toNat

/-- The ids that were given before are different. -/
def Presets (preset : Nat → UInt8) (senders : List Nat) : Prop :=
  ∀ a ∈ senders, ∀ b ∈ senders, preset a ≠ 0 → preset a = preset b → a = b

instance (preset : Nat → UInt8) (senders : List Nat) : Decidable (Presets preset senders) :=
  inferInstanceAs (Decidable (∀ a ∈ senders, ∀ b ∈ senders, _ → _ → _))

theorem mem_sendersOf {events : List RegistryEvent} {a : Nat} :
    a ∈ sendersOf events ↔ .registerSender a ∈ events := by
  rw [sendersOf, List.mem_dedup, List.mem_filterMap]
  constructor
  · rintro ⟨event, member, registers⟩
    cases event with
    | registerSender sender => exact Option.some.inj registers ▸ member
    | startApplication _ => cases registers
  · exact fun member => ⟨_, member, rfl⟩

/-! ## The ids -/

/-- The ids of the senders and the state of the allocator. -/
structure Tracks (preset : Nat → UInt8) (registration : Registration) : Prop where
  fresh : ∀ a, a ∉ registration.registered → registration.registry.pathId a = preset a
  kept : ∀ a ∈ registration.registered, preset a ≠ 0 →
    registration.registry.pathId a = preset a
  allocated : (unset preset registration.registered).map registration.registry.pathId =
    (List.range (unset preset registration.registered).length).map fun i => UInt8.ofNat (i + 1)
  allocator : registration.registry.pathIdAllocator =
    UInt32.ofNat ((unset preset registration.registered).length + 1)

variable {preset : Nat → UInt8} {registration : Registration}

theorem tracks_fresh (preset : Nat → UInt8) : (fresh preset).Tracks preset where
  fresh _ _ := rfl
  kept _ member := absurd member List.not_mem_nil
  allocated := rfl
  allocator := rfl

theorem unset_append (preset : Nat → UInt8) (first second : List Nat) :
    unset preset (first ++ second) = unset preset first ++ unset preset second :=
  List.filter_append ..

theorem unset_singleton (preset : Nat → UInt8) (sender : Nat) :
    unset preset [sender] = if preset sender = 0 then [sender] else [] := by
  simp only [unset, List.filter_cons, List.filter_nil, decide_eq_true_iff]

theorem length_unset_le (preset : Nat → UInt8) (senders : List Nat) :
    (unset preset senders).length ≤ senders.length :=
  List.length_filter_le _ _

theorem mem_unset {senders : List Nat} {a : Nat} :
    a ∈ unset preset senders ↔ a ∈ senders ∧ preset a = 0 := by
  rw [unset, List.mem_filter, decide_eq_true_iff]

/-- The ids of the allocator are those below the next one. -/
theorem Tracks.allocated_id (tracks : registration.Tracks preset) {a : Nat}
    (member : a ∈ registration.registered) (none : preset a = 0) :
    ∃ i < (unset preset registration.registered).length,
      registration.registry.pathId a = UInt8.ofNat (i + 1) := by
  have image := List.mem_map_of_mem (f := registration.registry.pathId)
    (mem_unset.mpr ⟨member, none⟩)
  rw [tracks.allocated] at image
  obtain ⟨i, below, same⟩ := List.mem_map.mp image
  exact ⟨i, List.mem_range.mp below, same.symm⟩

theorem Tracks.owner_of_allocated (tracks : registration.Tracks preset) {i : Nat}
    (below : i < (unset preset registration.registered).length) :
    ∃ a ∈ registration.registered, preset a = 0 ∧
      registration.registry.pathId a = UInt8.ofNat (i + 1) := by
  have image := List.mem_map_of_mem (f := fun i => UInt8.ofNat (i + 1)) (List.mem_range.mpr below)
  rw [← tracks.allocated] at image
  obtain ⟨a, member, same⟩ := List.mem_map.mp image
  obtain ⟨registered, none⟩ := mem_unset.mp member
  exact ⟨a, registered, none, same⟩

/-- A registered sender has an id. -/
theorem Tracks.pathId_ne_zero (tracks : registration.Tracks preset)
    (few : registration.registered.length ≤ 255) {a : Nat}
    (member : a ∈ registration.registered) : registration.registry.pathId a ≠ 0 := by
  by_cases none : preset a = 0
  · obtain ⟨i, below, same⟩ := tracks.allocated_id member none
    have atMost := length_unset_le preset registration.registered
    rw [same, ← UInt8.toNat_inj.ne, UInt8.toNat_ofNat', Nat.mod_eq_of_lt (by omega)]
    exact Nat.succ_ne_zero i
  · rwa [tracks.kept a member none]

/-- **Different senders have different ids**, if those that were given before are clear of the
allocator. -/
theorem Tracks.distinct (tracks : registration.Tracks preset)
    (few : registration.registered.length ≤ 255)
    (clear : Clear preset registration.registered)
    (presets : Presets preset registration.registered) : registration.Distinct := by
  intro a first b second same
  have atMost := length_unset_le preset registration.registered
  -- an id of the allocator is below every id that was given before
  have apart : ∀ a ∈ registration.registered, ∀ b ∈ registration.registered, preset a ≠ 0 →
      preset b = 0 → registration.registry.pathId a ≠ registration.registry.pathId b := by
    intro a first b second given none equal
    obtain ⟨i, below, number⟩ := tracks.allocated_id second none
    have beyond := clear a first given
    rw [tracks.kept a first given, number] at equal
    rw [equal, UInt8.toNat_ofNat', Nat.mod_eq_of_lt (by omega)] at beyond
    omega
  by_cases given : preset a = 0 <;> by_cases other : preset b = 0
  · have numbers : ((List.range (unset preset registration.registered).length).map
        fun i => UInt8.ofNat (i + 1)).Nodup := by
      refine List.Nodup.map_on ?_ List.nodup_range
      intro i iBelow j jBelow equal
      have iSmall := List.mem_range.mp iBelow
      have jSmall := List.mem_range.mp jBelow
      rw [← UInt8.toNat_inj, UInt8.toNat_ofNat', UInt8.toNat_ofNat',
        Nat.mod_eq_of_lt (by omega), Nat.mod_eq_of_lt (by omega)] at equal
      omega
    rw [← tracks.allocated] at numbers
    exact List.inj_on_of_nodup_map numbers (mem_unset.mpr ⟨first, given⟩)
      (mem_unset.mpr ⟨second, other⟩) same
  · exact absurd same.symm (apart b second a first other given)
  · exact absurd same (apart a first b second given other)
  · rw [tracks.kept a first given, tracks.kept b second other] at same
    exact presets a first b second given same

/-- **Senders with different ids are clear of the allocator.** -/
theorem Tracks.clear (tracks : registration.Tracks preset) (distinct : registration.Distinct) :
    Clear preset registration.registered := by
  intro a member given
  by_contra covered
  have positive : 0 < (preset a).toNat := Nat.pos_of_ne_zero fun zero =>
    given (UInt8.toNat_inj.mp zero)
  obtain ⟨b, other, none, same⟩ := tracks.owner_of_allocated
    (show (preset a).toNat - 1 < _ by omega)
  rw [Nat.sub_add_cancel positive, UInt8.ofNat_toNat, ← tracks.kept a member given] at same
  exact given (distinct a member b other same.symm ▸ none)

/-- A sender that is registered again keeps its id. -/
theorem Tracks.again (tracks : registration.Tracks preset)
    (few : registration.registered.length ≤ 255) {sender : Nat}
    (member : sender ∈ registration.registered) :
    (registration.handle (.registerSender sender)).Tracks preset := by
  have given := tracks.pathId_ne_zero few member
  have same : ∀ a, (registration.registry.registerSender sender).pathId a =
      registration.registry.pathId a := by
    intro a
    rw [PathRegistry.pathId_registerSender, if_neg fun both => given both.2]
  simp only [handle, if_pos member]
  refine ⟨fun a new => (same a).trans (tracks.fresh a new),
    fun a old set => (same a).trans (tracks.kept a old set), ?_, ?_⟩
  · rw [← tracks.allocated]
    exact List.map_congr_left fun a _ => same a
  · rw [PathRegistry.pathIdAllocator_registerSender, if_neg given]
    exact tracks.allocator

/-- A new sender keeps the id that it was given, or gets the next one. -/
theorem Tracks.register (tracks : registration.Tracks preset) {sender : Nat}
    (new : sender ∉ registration.registered) :
    (registration.handle (.registerSender sender)).Tracks preset := by
  have fresh := tracks.fresh sender new
  have others : ∀ a, a ≠ sender → (registration.registry.registerSender sender).pathId a =
      registration.registry.pathId a := by
    intro a differ
    rw [PathRegistry.pathId_registerSender, if_neg fun both => differ both.1]
  have own : (registration.registry.registerSender sender).pathId sender =
      if preset sender = 0 then registration.registry.pathIdAllocator.toUInt8
      else preset sender := by
    rw [PathRegistry.pathId_registerSender, fresh]
    simp only [true_and]
  have outside : ∀ a ∈ registration.registered, a ≠ sender := by
    rintro a member rfl
    exact new member
  have before : (unset preset registration.registered).map
      (registration.registry.registerSender sender).pathId =
        (unset preset registration.registered).map registration.registry.pathId :=
    List.map_congr_left fun a member => others a (outside a (mem_unset.mp member).1)
  simp only [handle, if_neg new]
  refine ⟨?_, ?_, ?_, ?_⟩
  · intro a absent
    rw [List.mem_append, List.mem_singleton, not_or] at absent
    exact (others a absent.2).trans (tracks.fresh a absent.1)
  · intro a member given
    rcases List.mem_append.mp member with old | last
    · exact (others a (outside a old)).trans (tracks.kept a old given)
    · obtain rfl := List.mem_singleton.mp last
      rw [own, if_neg given]
  · rw [unset_append, unset_singleton]
    split_ifs with none
    · rw [List.map_append, before, tracks.allocated, List.length_append,
        List.length_singleton, List.range_succ, List.map_append, List.map_singleton,
        List.map_singleton, own, if_pos none, tracks.allocator, UInt32.toUInt8_ofNat']
    · rw [List.append_nil, before, tracks.allocated]
  · rw [PathRegistry.pathIdAllocator_registerSender, fresh, unset_append, unset_singleton]
    split_ifs with none
    · rw [List.length_append, List.length_singleton, tracks.allocator, ← UInt32.ofNat_one,
        ← UInt32.ofNat_add]
    · rw [List.append_nil, tracks.allocator]

theorem Tracks.start (tracks : registration.Tracks preset) (sender : Nat) :
    (registration.handle (.startApplication sender)).Tracks preset where
  fresh a new := (PathRegistry.pathId_startApplication ..).trans (tracks.fresh a new)
  kept a old given := (PathRegistry.pathId_startApplication ..).trans (tracks.kept a old given)
  allocated := (List.map_congr_left fun _ _ => PathRegistry.pathId_startApplication ..).trans
    tracks.allocated
  allocator := (PathRegistry.pathIdAllocator_startApplication ..).trans tracks.allocator

/-! ## The maps -/

/-- The maps of the registry hold the registered senders under their ids. -/
structure Owned (registration : Registration) : Prop where
  waiting : ∀ pid a, registration.registry.waittingPaths.find? pid = some a →
    a ∈ registration.registered ∧ registration.registry.pathId a = pid
  usable : ∀ pid a, registration.registry.usablePaths.find? pid = some a →
    a ∈ registration.registered ∧ registration.registry.pathId a = pid
  located : ∀ a ∈ registration.registered,
    registration.registry.waittingPaths.find? (registration.registry.pathId a) = some a ∨
      registration.registry.usablePaths.find? (registration.registry.pathId a) = some a
  notified : ∀ a, (registration.registry.senders a).mpsender = true ↔
    a ∈ registration.registered
  started : ∀ a ∈ registration.started, a ∈ registration.registered ∧
    registration.registry.usablePaths.find? (registration.registry.pathId a) = some a

theorem owned_fresh (preset : Nat → UInt8) : (fresh preset).Owned where
  waiting := by simp [fresh]
  usable := by simp [fresh]
  located := by simp [fresh]
  notified := by simp [fresh]
  started := by simp [fresh]

theorem mem_registered_registerSender (registration : Registration) (sender a : Nat) :
    a ∈ (registration.handle (.registerSender sender)).registered ↔
      a = sender ∨ a ∈ registration.registered := by
  simp only [handle]
  split_ifs with known
  · exact ⟨.inr, fun either => either.elim (fun own => own ▸ known) id⟩
  · rw [List.mem_append, List.mem_singleton, or_comm]

/-- **A sender enters the registry.** -/
theorem Owned.registerSender (owned : registration.Owned) {sender : Nat}
    (same : ∀ a ∈ registration.registered,
      (registration.registry.registerSender sender).pathId a = registration.registry.pathId a)
    (distinct : (registration.handle (.registerSender sender)).Distinct) :
    (registration.handle (.registerSender sender)).Owned := by
  have members := registration.mem_registered_registerSender sender
  have isOwn : ∀ a ∈ registration.registered, registration.registry.pathId a =
      (registration.registry.registerSender sender).pathId sender → a = sender := by
    intro a known id
    exact distinct a ((members a).mpr (.inr known)) sender ((members sender).mpr (.inl rfl))
      ((same a known).trans id)
  have alone : ∀ a, registration.registry.waittingPaths.find?
      ((registration.registry.registerSender sender).pathId sender) = some a → a = sender := by
    intro a waits
    obtain ⟨known, id⟩ := owned.waiting _ a waits
    exact isOwn a known id
  have waitting := PathRegistry.find?_registerSender alone
  have usable := PathRegistry.usablePaths_registerSender sender registration.registry
  refine ⟨?_, ?_, ?_, ?_, ?_⟩
  · intro pid a waits
    change (registration.registry.registerSender sender).waittingPaths.find? pid = _ at waits
    rw [waitting] at waits
    split_ifs at waits with own
    · obtain rfl := Option.some.inj waits
      exact ⟨(members sender).mpr (.inl rfl), own.symm⟩
    · obtain ⟨known, id⟩ := owned.waiting pid a waits
      exact ⟨(members a).mpr (.inr known), (same a known).trans id⟩
  · intro pid a uses
    change (registration.registry.registerSender sender).usablePaths.find? pid = _ at uses
    rw [usable] at uses
    obtain ⟨known, id⟩ := owned.usable pid a uses
    exact ⟨(members a).mpr (.inr known), (same a known).trans id⟩
  · intro a member
    change (registration.registry.registerSender sender).waittingPaths.find?
      ((registration.registry.registerSender sender).pathId a) = _ ∨
        (registration.registry.registerSender sender).usablePaths.find?
          ((registration.registry.registerSender sender).pathId a) = _
    rw [waitting, usable]
    split_ifs with own
    · exact .inl (congrArg some
        (distinct a member sender ((members sender).mpr (.inl rfl)) own).symm)
    · have known := ((members a).mp member).resolve_left (fun equal => own (equal ▸ rfl))
      rw [same a known]
      exact owned.located a known
  · intro a
    rw [members, ← owned.notified]
    refine PathRegistry.mpsender_registerSender ?_ a
    intro waits
    obtain ⟨b, found⟩ := Option.ne_none_iff_exists'.mp waits
    obtain rfl := alone b found
    exact (owned.notified b).mpr (owned.waiting _ b found).1
  · intro a begun
    obtain ⟨known, uses⟩ := owned.started a begun
    refine ⟨(members a).mpr (.inr known), ?_⟩
    change (registration.registry.registerSender sender).usablePaths.find?
      ((registration.registry.registerSender sender).pathId a) = _
    rw [usable, same a known, uses]

/-- A registered sender is alone under its id, and waits there or is usable. -/
theorem Owned.alone (owned : registration.Owned) (distinct : registration.Distinct) {sender : Nat}
    (known : sender ∈ registration.registered) :
    (registration.registry.waittingPaths.find? (registration.registry.pathId sender) =
        some sender ∨
      registration.registry.waittingPaths.find? (registration.registry.pathId sender) = none ∧
        registration.registry.usablePaths.find? (registration.registry.pathId sender) =
          some sender) ∧
      ∀ a, registration.registry.usablePaths.find? (registration.registry.pathId sender) =
        some a → a = sender := by
  constructor
  · cases waits : registration.registry.waittingPaths.find?
        (registration.registry.pathId sender) with
    | some a =>
        obtain ⟨member, id⟩ := owned.waiting _ a waits
        exact .inl (congrArg some (distinct a member sender known id))
    | none => exact .inr ⟨rfl, (owned.located sender known).resolve_left (by simp [waits])⟩
  · intro a uses
    obtain ⟨member, id⟩ := owned.usable _ a uses
    exact distinct a member sender known id

/-- **A registered sender starts**, and is usable under its id. -/
theorem Owned.startApplication (owned : registration.Owned) (distinct : registration.Distinct)
    (sender : Nat) : (registration.handle (.startApplication sender)).Owned := by
  by_cases known : sender ∈ registration.registered
  · have told := (owned.notified sender).mpr known
    obtain ⟨located, alone⟩ := owned.alone distinct known
    have maps := PathRegistry.find?_onNetworkAvailable located alone
    have senders := PathRegistry.onNetworkAvailable_senders
      (registration.registry.pathId sender) registration.registry
    have ids : ∀ a, (registration.registry.onNetworkAvailable
        (registration.registry.pathId sender)).pathId a = registration.registry.pathId a :=
      fun a => congrArg (fun senders => (senders a).pathId) senders
    simp only [handle, PathRegistry.startApplication, if_pos told, if_pos known]
    refine ⟨?_, ?_, ?_, ?_, ?_⟩
    · intro pid a waits
      rw [(maps pid).2] at waits
      split_ifs at waits
      rw [ids]
      exact owned.waiting pid a waits
    · intro pid a uses
      rw [(maps pid).1] at uses
      rw [ids]
      split_ifs at uses with own
      · obtain rfl := Option.some.inj uses
        exact ⟨known, own.symm⟩
      · exact owned.usable pid a uses
    · intro a member
      rw [ids, (maps _).1, (maps _).2]
      split_ifs with own
      · exact .inr (congrArg some (distinct a member sender known own).symm)
      · exact owned.located a member
    · intro a
      rw [senders]
      exact owned.notified a
    · intro a begun
      rw [ids, (maps _).1]
      rcases List.mem_cons.mp begun with rfl | earlier
      · exact ⟨known, if_pos rfl⟩
      · obtain ⟨member, uses⟩ := owned.started a earlier
        refine ⟨member, ?_⟩
        split_ifs with own
        · exact congrArg some (distinct a member sender known own).symm
        · exact uses
  · have silent := mt (owned.notified sender).mp known
    have same : registration.handle (.startApplication sender) = registration := by
      simp only [handle, PathRegistry.startApplication, if_neg silent, if_neg known]
    rwa [same]

/-! ## Runs -/

theorem Clear.subperm {first second : List Nat} (clear : Clear preset second)
    (fewer : first.Subperm second) : Clear preset first := by
  intro a member given
  have fewerUnset : (unset preset first).length ≤ (unset preset second).length :=
    (fewer.filter _).length_le
  exact fewerUnset.trans_lt (clear a (fewer.subset member) given)

theorem Presets.subperm {first second : List Nat} (presets : Presets preset second)
    (fewer : first.Subperm second) : Presets preset first := fun a aMember b bMember =>
  presets a (fewer.subset aMember) b (fewer.subset bMember)

/-- More senders are registered. -/
theorem handle_registered (registration : Registration) (event : RegistryEvent) :
    ∃ more, (registration.handle event).registered = registration.registered ++ more := by
  cases event with
  | registerSender sender =>
      simp only [handle]
      split_ifs
      · exact ⟨[], (List.append_nil _).symm⟩
      · exact ⟨[sender], rfl⟩
  | startApplication sender => exact ⟨[], (List.append_nil _).symm⟩

theorem Tracks.handle (tracks : registration.Tracks preset)
    (few : registration.registered.length ≤ 255) (event : RegistryEvent) :
    (registration.handle event).Tracks preset := by
  cases event with
  | registerSender sender =>
      by_cases known : sender ∈ registration.registered
      · exact tracks.again few known
      · exact tracks.register known
  | startApplication sender => exact tracks.start sender

theorem Owned.handle (owned : registration.Owned) (tracks : registration.Tracks preset)
    (event : RegistryEvent) (few : (registration.handle event).registered.length ≤ 255)
    (clear : Clear preset (registration.handle event).registered)
    (presets : Presets preset (registration.handle event).registered) :
    (registration.handle event).Owned := by
  obtain ⟨more, grown⟩ := handle_registered registration event
  have fewer : registration.registered.length ≤ 255 := by
    rw [grown, List.length_append] at few
    omega
  have after := tracks.handle fewer event
  cases event with
  | registerSender sender =>
      refine owned.registerSender ?_ (after.distinct few clear presets)
      intro a member
      rw [PathRegistry.pathId_registerSender, if_neg]
      rintro ⟨rfl, zero⟩
      exact tracks.pathId_ne_zero fewer member zero
  | startApplication sender =>
      exact owned.startApplication (tracks.distinct fewer clear presets) sender

/-- What holds after every run: the ids are tracked, and if they are distinct the maps are the
senders'. -/
structure Kept (preset : Nat → UInt8) (registration : Registration) : Prop where
  tracks : registration.registered.length ≤ 255 → registration.Tracks preset
  owned : registration.registered.length ≤ 255 → Clear preset registration.registered →
    Presets preset registration.registered → registration.Owned

theorem Kept.step (s : Registration) (event : RegistryEvent) (next : Registration)
    (out : List Empty) (kept : s.Kept preset)
    (stepped : machine.step s event = some (next, out)) : next.Kept preset := by
  obtain ⟨rfl, -⟩ := Prod.mk.inj (Option.some.inj stepped)
  obtain ⟨more, grown⟩ := handle_registered s event
  have fewer : (s.handle event).registered.length ≤ 255 → s.registered.length ≤ 255 := by
    intro few
    rw [grown, List.length_append] at few
    omega
  refine ⟨fun few => (kept.tracks (fewer few)).handle (fewer few) event, ?_⟩
  intro few clear presets
  have part : s.registered.Subperm (s.handle event).registered :=
    grown ▸ (List.sublist_append_left s.registered more).subperm
  have earlier : s.Owned :=
    kept.owned (fewer few) (clear.subperm part) (presets.subperm part)
  exact earlier.handle (kept.tracks (fewer few)) event few clear presets

theorem kept_of_run {events : List RegistryEvent} {out : List Empty}
    (ran : machine.run (fresh preset) events = some (registration, out)) :
    registration.Kept preset :=
  Machine.run_invariant (Kept preset) Kept.step
    ⟨fun _ => tracks_fresh preset, fun _ _ _ => owned_fresh preset⟩ ran

theorem nodup_handle {registration : Registration} (nodup : registration.registered.Nodup)
    (event : RegistryEvent) : (registration.handle event).registered.Nodup := by
  cases event with
  | registerSender sender =>
      simp only [Registration.handle]
      split_ifs with known
      · exact nodup
      · rw [List.nodup_append]
        refine ⟨nodup, List.nodup_singleton sender, ?_⟩
        rintro a member b last rfl
        exact known (List.mem_singleton.mp last ▸ member)
  | startApplication _ => exact nodup

theorem nodup_of_run {events : List RegistryEvent} {out : List Empty}
    (ran : machine.run (fresh preset) events = some (registration, out)) :
    registration.registered.Nodup := by
  refine Machine.run_invariant (fun s => s.registered.Nodup) ?_ List.nodup_nil ran
  intro s event next out nodup stepped
  obtain ⟨rfl, -⟩ := Prod.mk.inj (Option.some.inj stepped)
  exact nodup_handle nodup event

theorem mem_registered_of_run {start : Registration} {events : List RegistryEvent}
    {out : List Empty} (ran : machine.run start events = some (registration, out)) (a : Nat) :
    a ∈ registration.registered ↔ a ∈ start.registered ∨ a ∈ sendersOf events := by
  induction events generalizing start out with
  | nil =>
      obtain ⟨rfl, -⟩ := Prod.mk.inj (Option.some.inj ran)
      exact (or_iff_left List.not_mem_nil).symm
  | cons event rest ih =>
      obtain ⟨next, first, more, stepped, onwards, -⟩ := Machine.run_cons.mp ran
      obtain ⟨rfl, -⟩ := Prod.mk.inj (Option.some.inj stepped)
      rw [ih onwards, mem_sendersOf, mem_sendersOf, List.mem_cons, ← or_assoc]
      refine or_congr_left ?_
      cases event with
      | registerSender sender =>
          simp only [Registration.handle, RegistryEvent.registerSender.injEq]
          split_ifs with known
          · exact (or_iff_left_of_imp fun own => own ▸ known).symm
          · rw [List.mem_append, List.mem_singleton]
      | startApplication sender => simp [Registration.handle]

/-- The registered senders are those of the events. -/
theorem registered_perm_of_run {events : List RegistryEvent} {out : List Empty}
    (ran : machine.run (fresh preset) events = some (registration, out)) :
    registration.registered.Perm (sendersOf events) := by
  refine (List.perm_ext_iff_of_nodup (nodup_of_run ran) (List.nodup_dedup _)).mpr fun a => ?_
  rw [mem_registered_of_run ran]
  exact or_iff_right List.not_mem_nil

theorem sendersOf_take (events : List RegistryEvent) (n : Nat) :
    (sendersOf (events.take n)).Subperm (sendersOf events) := by
  refine (List.nodup_dedup _).subperm fun a member => ?_
  exact mem_sendersOf.mpr (List.mem_of_mem_take (mem_sendersOf.mp member))

/-- **In every state that is reached, the registered senders have different ids and
notifiers, and those that have started are usable under their ids, if and only if no id that
was given before is among the numbers of the allocator**, for at most 255 senders. -/
theorem registered_sound_iff (preset : Nat → UInt8) (events : List RegistryEvent)
    (few : (sendersOf events).length ≤ 255) (presets : Presets preset (sendersOf events)) :
    (∀ n s out, machine.run (fresh preset) (events.take n) = some (s, out) → s.Sound) ↔
      Clear preset (sendersOf events) := by
  constructor
  · intro always
    have defined : ∀ s event, ∃ next out, machine.step s event = some (next, out) :=
      fun s event => ⟨s.handle event, [], rfl⟩
    obtain ⟨last, out, ran⟩ := Machine.run_total defined (fresh preset) events
    have sound := always events.length last out (by rwa [List.take_length])
    have members := registered_perm_of_run ran
    have tracks := (kept_of_run ran).tracks (members.length_eq.trans_le few)
    exact (tracks.clear sound.distinct).subperm members.symm.subperm
  · intro clear n s out ran
    have members : s.registered.Subperm (sendersOf events) :=
      (registered_perm_of_run ran).subperm.trans (sendersOf_take events n)
    have fewer := members.length_le.trans few
    have kept := kept_of_run ran
    have owned := kept.owned fewer (clear.subperm members) (presets.subperm members)
    exact {
      distinct := (kept.tracks fewer).distinct fewer (clear.subperm members)
        (presets.subperm members)
      notified := fun a => (owned.notified a).mpr
      usable := fun a begun => (owned.started a begun).2 }

/-- Sender 1 has the id 2, and sender 2 gets the id 1. -/
theorem registered_sound_iff_beside :
    let preset : Nat → UInt8 := fun sender => if sender = 1 then 2 else 0
    let events : List RegistryEvent :=
      [.registerSender 1, .startApplication 1, .registerSender 2, .startApplication 2]
    (∀ n s out, machine.run (fresh preset) (events.take n) = some (s, out) → s.Sound) ↔
      Clear preset (sendersOf events) :=
  registered_sound_iff _ _ (by decide) (by decide)

/-- Sender 1 has the id 1 and is usable, and sender 2 gets the same id: it starts, and the path
1 is still that of sender 1. -/
theorem allocated_id_taken :
    let preset : Nat → UInt8 := fun sender => if sender = 1 then 1 else 0
    let events : List RegistryEvent :=
      [.registerSender 1, .startApplication 1, .registerSender 2, .startApplication 2]
    Presets preset (sendersOf events) ∧
      ∃ last, machine.run (fresh preset) events = some (last, []) ∧
      last.registry.pathId 1 = last.registry.pathId 2 ∧ 2 ∈ last.started ∧
      last.registry.usablePaths.find? 1 = some 1 ∧ ¬ last.Sound := by
  refine ⟨by decide, _, rfl, by decide, by decide, by decide, fun sound => ?_⟩
  exact absurd (sound.distinct 1 (by decide) 2 (by decide) (by decide)) (by decide)

end Registration

end MpVideo.V1
