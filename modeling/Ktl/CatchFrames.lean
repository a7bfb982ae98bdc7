import Mathlib.Data.List.Nodup
import Mathlib.Data.List.TakeWhile
import Ktl.Counting
import Ktl.Runs

/-!
Who owns an exception object. A `catch_info` owns an object, or links to the `catch_info`
that does, or, in a rethrow that has not looked yet, has neither.

The stack has the frames of throws and handlers, the top one first, and only the top frame
makes a step. A dispatch leaves the handler frames it has unwound on the stack until it
enters a handler, and destructors that it runs can throw and catch above it.

A probe moves the registers of its throw frame to the catch frame that it finds. Where the
dispatch unwinds further from there, or a handler entered there returns, the registers do
not belong to the function that goes on, and these steps are not followed any more.
-/
namespace Ktl.CatchFrames

open Runs Counting List Option

/-- `exception_object_or_link`: an exception object or the address of a `catch_info`. -/
inductive Ref where
  | object (o : Nat)
  | catchInfo (id : Nat)
  deriving DecidableEq

structure CatchInfo where
  primaryFramePtr : BitVec 64
  exceptionObjectOrLink : Option Ref
  throwInfoIfOwner : Option Nat
  unwindContext : Option (BitVec 64)
  deriving DecidableEq

/-- A throw frame, an active handler, or a handler frame that a dispatch above it has unwound. -/
inductive Status where
  | throwing | handling | unwound
  deriving DecidableEq

structure Frame where
  id : Nat
  info : CatchInfo
  status : Status
  /-- a probe has moved the registers of the frame -/
  moved : Bool
  deriving DecidableEq

/-- The objects that were thrown, and those given to `__cxx_destroy_exception`. -/
structure State where
  stack : List Frame
  throwInfoOf : Nat → Option Nat
  destroyed : List Nat

def State.initial : State := ⟨[], fun _ => none, []⟩

abbrev State.ids (s : State) : List Nat := s.stack.map (·.id)

@[simp] def Frame.isUnwound (f : Frame) : Bool := f.status == .unwound

def Frame.active (f : Frame) : Bool := f.status != .unwound

def State.infoAt (s : State) (id : Nat) : Option CatchInfo :=
  (s.stack.find? (·.id == id)).map (·.info)

@[simp] def CatchInfo.object (ci : CatchInfo) : Option Nat :=
  match ci.exceptionObjectOrLink with
  | some (.object o) => some o
  | _ => none

/-- `get_exception_object`; `none` is the null pointer or one that is no object. -/
@[simp] def getExceptionObject (s : State) (ci : CatchInfo) : Option Nat :=
  if ci.throwInfoIfOwner.isSome then ci.object
  else
    match ci.exceptionObjectOrLink with
    | some (.catchInfo id) => (s.infoAt id).bind CatchInfo.object
    | _ => none

def getThrowInfo (s : State) (ci : CatchInfo) : Option Nat :=
  match ci.exceptionObjectOrLink with
  | none => none
  | some ref =>
    match ci.throwInfoIfOwner, ref with
    | some throwInfo, _ => some throwInfo
    | none, .catchInfo id => (s.infoAt id).bind CatchInfo.throwInfoIfOwner
    | none, .object _ => none

@[simp] def destroyException (destroyed : List Nat) (ci : CatchInfo) : List Nat :=
  match ci.throwInfoIfOwner, ci.object with
  | some _, some o => o :: destroyed
  | _, _ => destroyed

/-- `__cxx_call_catch_frame_handler` for a probe. -/
def probeFrame (ci : CatchInfo) (frame : Frame) : Option CatchInfo :=
  match frame.info.exceptionObjectOrLink with
  | none => none
  | some ref =>
    if frame.info.throwInfoIfOwner.isSome then
      some { ci with exceptionObjectOrLink := some (.catchInfo frame.id) }
    else some { ci with exceptionObjectOrLink := some ref }

/-- `__cxx_call_catch_frame_handler` for an unwind. -/
def unwindFrame (ci : CatchInfo) (frame : Frame) (destroyed : List Nat) : CatchInfo × List Nat :=
  if ci.exceptionObjectOrLink = none ∨ ci.exceptionObjectOrLink = some (.catchInfo frame.id) then
    (frame.info, destroyed)
  else
    ({ ci with
        primaryFramePtr := frame.info.primaryFramePtr
        unwindContext := frame.info.unwindContext },
      destroyException destroyed frame.info)

/-- The handler frame that a probe comes to first. It does not see what its own dispatch has
unwound. -/
def nearestCatch : List Frame → Option Frame
  | [] => none
  | _ :: below => (below.dropWhile Frame.isUnwound).find? (·.status != .throwing)

/-- The frames below a handler that the top frame enters: those that its dispatch has not unwound,
or, after a probe, those from the catch frame found on. -/
def walked (top : Frame) (below : List Frame) : List Frame :=
  let rest := below.dropWhile Frame.isUnwound
  if top.moved then rest.dropWhile (·.status == .throwing) else rest

inductive Action where
  | throw (id o throwInfo : Nat)
  | rethrow (id : Nat)
  | probe
  /-- the dispatch unwinds the next handler frame -/
  | unwindPast
  /-- a frame handler has chosen a catch block -/
  | enter (primaryFramePtr unwindContext : BitVec 64)
  | exit
  /-- an exception leaves a destructor that the dispatch below it runs -/
  | escape
  deriving DecidableEq

def throwFrame (id : Nat) (ref : Option Ref) (throwInfo : Option Nat) : Frame :=
  ⟨id, ⟨0, ref, throwInfo, none⟩, .throwing, false⟩

/-- There is no next state where the source calls `terminate`. An exception that leaves a destructor
comes to the `noexcept` dispatcher: the tables of FH3 make it `terminate`, those of FH4 do not, and
then the handler frames that had been unwound are met again. -/
def step (s : State) : Action → Option State
  | .throw id o throwInfo =>
    if id ∉ s.ids ∧ s.throwInfoOf o = none then
      some { s with
        stack := throwFrame id (some (.object o)) (some throwInfo) :: s.stack
        throwInfoOf := Function.update s.throwInfoOf o (some throwInfo) }
    else none
  | .rethrow id =>
    if id ∉ s.ids then some { s with stack := throwFrame id none none :: s.stack } else none
  | .probe =>
    match s.stack with
    | [] => none
    | top :: below =>
      if top.status = .throwing ∧ top.info.exceptionObjectOrLink = none then
        (nearestCatch s.stack).bind fun frame =>
          (probeFrame top.info frame).map fun info =>
            { s with stack := { top with info, moved := true } :: below }
      else none
  | .unwindPast =>
    match s.stack with
    | [] => none
    | top :: below =>
      match below.dropWhile Frame.isUnwound with
      | [] => none
      | frame :: rest =>
        if top.status = .throwing ∧ frame.status = .handling then
          let (info, destroyed) := unwindFrame top.info frame s.destroyed
          some { s with
            stack := { top with info } :: (below.takeWhile Frame.isUnwound ++ { frame with status := .unwound } :: rest)
            destroyed := destroyed }
        else none
  | .enter primaryFramePtr unwindContext =>
    match s.stack with
    | [] => none
    | top :: below =>
      if top.status = .throwing ∧ top.info.exceptionObjectOrLink ≠ none then
        let info := { top.info with
          primaryFramePtr := primaryFramePtr
          unwindContext := some unwindContext }
        some { s with
          stack := { top with info, status := .handling } :: walked top below }
      else none
  | .exit =>
    match s.stack with
    | [] => none
    | top :: below =>
      if top.status = .handling then
        some { s with stack := below, destroyed := destroyException s.destroyed top.info }
      else none
  | .escape =>
    match s.stack with
    | [] => none
    | top :: below =>
      match below.dropWhile Frame.isUnwound with
      | [] => none
      | frame :: rest =>
        if top.status = .throwing ∧ frame.status = .throwing then
          let met := (rest.takeWhile Frame.isUnwound).map fun f => { f with status := .handling }
          some { s with
            stack := top :: (below.takeWhile Frame.isUnwound ++ (met ++ rest.dropWhile Frame.isUnwound)) }
        else none

/-! ## What is to hold -/

@[simp] def CatchInfo.owns (ci : CatchInfo) (o : Nat) : Bool :=
  ci.throwInfoIfOwner.isSome && ci.exceptionObjectOrLink == some (.object o)

def Frame.owns (f : Frame) (o : Nat) : Bool := f.active && f.info.owns o

def owners (stack : List Frame) (o : Nat) : Nat := stack.countP (·.owns o)

/-- Every object has one owner until it is destroyed, once; every link leads to
an owner; and the frame of every active handler gives a live object with the
`throw_info` of its throw. -/
structure Sound (s : State) : Prop where
  owned : ∀ o, (s.throwInfoOf o).isSome → owners s.stack o + s.destroyed.count o = 1
  linked : ∀ f ∈ s.stack, f.active → f.info.throwInfoIfOwner = none → ∀ ref, f.info.exceptionObjectOrLink = some ref →
      ∃ owner ∈ s.stack, owner.active ∧ owner.info.throwInfoIfOwner.isSome ∧ ref = .catchInfo owner.id
  handled : ∀ f ∈ s.stack, f.status = .handling →
    ∃ o throwInfo, getExceptionObject s f.info = some o ∧ getThrowInfo s f.info = some throwInfo
      ∧ s.throwInfoOf o = some throwInfo ∧ o ∉ s.destroyed

/-- A step destroys no object but that of the handler frame that it leaves, normally or with an
exception that has another object. -/
def DestroysOwned (s : State) (a : Action) (s' : State) : Prop :=
  s'.destroyed = s.destroyed ∨ ∃ o, s'.destroyed = o :: s.destroyed ∧
    ((a = .exit ∧ ∃ top below, s.stack = top :: below ∧ top.owns o)
    ∨ (a = .unwindPast ∧ ∃ top below, s.stack = top :: below ∧ getExceptionObject s top.info ≠ some o
        ∧ ∃ frame rest, below.dropWhile Frame.isUnwound = frame :: rest ∧ frame.owns o))

def State.topMoved (s : State) : Bool := s.stack.head?.any (·.moved)

/-- A handler that the top frame enters would stand on a frame below another throw frame. -/
def State.skipsThrow (s : State) : Bool :=
  s.topMoved && (s.stack.tail.dropWhile Frame.isUnwound).head?.any (·.status == .throwing)

/-- A probe finds an active handler; after it no other throw frame is left out, its dispatch does
not unwind further and its handler does not return; and no exception leaves a destructor. -/
def Attached (s : State) : Action → Prop
  | .probe => ∀ frame ∈ nearestCatch s.stack, frame.status = .handling
  | .enter .. => s.skipsThrow = false
  | .unwindPast | .exit => s.topMoved = false
  | .escape => False
  | .throw .. | .rethrow _ => True

instance (s : State) (a : Action) : Decidable (Attached s a) :=
  match a with
  | .probe => inferInstanceAs (Decidable (∀ frame ∈ nearestCatch s.stack, frame.status = .handling))
  | .enter .. => inferInstanceAs (Decidable (s.skipsThrow = false))
  | .unwindPast | .exit => inferInstanceAs (Decidable (s.topMoved = false))
  | .escape => isFalse id
  | .throw .. | .rethrow _ => isTrue trivial

/-! ## The invariant -/

inductive Linked (throwInfoOf : Nat → Option Nat) (below : List Frame) (f : Frame) : Prop
  | unwound (hstatus : f.status = .unwound)
  | owner (o throwInfo : Nat) (hlink : f.info.exceptionObjectOrLink = some (.object o))
      (hinfo : f.info.throwInfoIfOwner = some throwInfo) (hthrown : throwInfoOf o = some throwInfo)
  | link (owner : Frame) (hmem : owner ∈ below) (hactive : owner.active) (howner : owner.info.throwInfoIfOwner.isSome)
      (hlink : f.info.exceptionObjectOrLink = some (.catchInfo owner.id)) (hinfo : f.info.throwInfoIfOwner = none)
  | pending (hstatus : f.status = .throwing) (hlink : f.info.exceptionObjectOrLink = none)
      (hinfo : f.info.throwInfoIfOwner = none)

def WellLinked (throwInfoOf : Nat → Option Nat) : List Frame → Prop
  | [] => True
  | f :: below => Linked throwInfoOf below f ∧ WellLinked throwInfoOf below

structure Inv (s : State) : Prop where
  nodup : s.ids.Nodup
  linked : WellLinked s.throwInfoOf s.stack
  owned : ∀ o, owners s.stack o + s.destroyed.count o = (s.throwInfoOf o).isSome.toNat

theorem initial_inv : Inv State.initial := ⟨nodup_nil, trivial, fun _ => rfl⟩

variable {f : Frame}

theorem Frame.active_of_throwing (h : f.status = .throwing) : f.active = true := by
  rw [Frame.active, h]
  rfl

theorem Frame.active_of_handling (h : f.status = .handling) : f.active = true := by
  rw [Frame.active, h]
  rfl

theorem Frame.owns_of_active (h : f.active = true) (o : Nat) : f.owns o = f.info.owns o := by
  rw [Frame.owns, h, Bool.true_and]
theorem Frame.owns_of_unwound (h : f.status = .unwound) (o : Nat) : f.owns o = false := by
  simp [Frame.owns, Frame.active, h]
theorem CatchInfo.owns_of_none {ci : CatchInfo} (h : ci.throwInfoIfOwner = none) (o : Nat) : ci.owns o = false := by
  simp [h]

theorem throwFrame_owns_object (id o throwInfo o' : Nat) :
    (throwFrame id (some (.object o)) (some throwInfo)).owns o' = (o == o') := by
  rw [Frame.owns_of_active rfl, Bool.eq_iff_iff]
  simp [throwFrame]

theorem throwFrame_owns_none (id o : Nat) : (throwFrame id none none).owns o = false :=
  (Frame.owns_of_active rfl o).trans (CatchInfo.owns_of_none rfl o)

theorem owners_cons (f : Frame) (l : List Frame) (o : Nat) : owners (f :: l) o = owners l o + (f.owns o).toNat := by
  rw [owners, countP_cons]
  cases f.owns o <;> rfl

theorem owners_append (l l' : List Frame) (o : Nat) :
    owners (l ++ l') o = owners l o + owners l' o := countP_append

theorem owners_dropWhile (l : List Frame) (o : Nat) : owners (l.dropWhile Frame.isUnwound) o = owners l o := by
  have hnone : owners (l.takeWhile Frame.isUnwound) o = 0 := by
    refine countP_eq_zero.mpr fun f hf howns => ?_
    have hunwound := mem_takeWhile_imp hf
    simp_all [Frame.owns, Frame.active]
  rw [← takeWhile_append_dropWhile (p := Frame.isUnwound) (l := l), owners_append, hnone,
    takeWhile_append_dropWhile, Nat.zero_add]

theorem count_destroyException (destroyed : List Nat) (ci : CatchInfo) (o : Nat) :
    (destroyException destroyed ci).count o = destroyed.count o + (ci.owns o).toNat := by
  obtain ⟨primaryFramePtr, link, throwInfo, unwindContext⟩ := ci
  cases throwInfo with
  | none => simp
  | some throwInfo =>
    cases link with
    | none => simp
    | some ref =>
      cases ref with
      | catchInfo id => simp
      | object o' =>
        by_cases he : o' = o <;>
          simp [he]

theorem active_mem_dropWhile {l : List Frame} (hmem : f ∈ l) (hactive : f.active) :
    f ∈ l.dropWhile Frame.isUnwound := by
  rw [← takeWhile_append_dropWhile (p := Frame.isUnwound) (l := l)] at hmem
  rcases mem_append.mp hmem with htake | hdrop
  · have hunwound := mem_takeWhile_imp htake
    simp_all [Frame.active]
  · exact hdrop

variable {throwInfoOf throwInfoOf' : Nat → Option Nat}

theorem Linked.mono (h : Linked throwInfoOf below f)
    (hinfo : ∀ o throwInfo, throwInfoOf o = some throwInfo → throwInfoOf' o = some throwInfo)
    (hbelow : ∀ g ∈ below, g.active → g ∈ below') : Linked throwInfoOf' below' f := by
  cases h with
  | unwound hstatus => exact .unwound hstatus
  | owner o throwInfo hlink howner hthrown =>
    exact .owner o throwInfo hlink howner (hinfo o throwInfo hthrown)
  | link owner hmem hactive howner hlink hnone =>
    exact .link owner (hbelow owner hmem hactive) hactive howner hlink hnone
  | pending hstatus hlink hnone => exact .pending hstatus hlink hnone

theorem WellLinked.mono (h : WellLinked throwInfoOf stack)
    (hinfo : ∀ o throwInfo, throwInfoOf o = some throwInfo → throwInfoOf' o = some throwInfo) :
    WellLinked throwInfoOf' stack := by
  induction stack with
  | nil => trivial
  | cons f below ih => exact ⟨h.1.mono hinfo fun _ hg _ => hg, ih h.2⟩

theorem WellLinked.of_append (h : WellLinked throwInfoOf (us ++ l)) : WellLinked throwInfoOf l := by
  induction us with
  | nil => exact h
  | cons u us ih => exact ih h.2

theorem WellLinked.append (hus : ∀ u ∈ us, u.isUnwound) (h : WellLinked throwInfoOf l) :
    WellLinked throwInfoOf (us ++ l) := by
  induction us with
  | nil => exact h
  | cons u us ih =>
    refine ⟨.unwound ?_, ih fun v hv => hus v (mem_cons_of_mem u hv)⟩
    simpa using hus u mem_cons_self

theorem WellLinked.dropWhile (h : WellLinked throwInfoOf l) : WellLinked throwInfoOf (l.dropWhile Frame.isUnwound) := by
  rw [← takeWhile_append_dropWhile (p := Frame.isUnwound) (l := l)] at h
  exact h.of_append

theorem WellLinked.mem (h : WellLinked throwInfoOf stack) (hf : f ∈ stack) :
    ∃ below, (∀ g ∈ below, g ∈ stack) ∧ Linked throwInfoOf below f := by
  induction stack with
  | nil => exact absurd hf not_mem_nil
  | cons g below ih =>
    rcases mem_cons.mp hf with rfl | hf
    · exact ⟨below, fun _ => mem_cons_of_mem f, h.1⟩
    · obtain ⟨below', hsub, hlinked⟩ := ih h.2 hf
      exact ⟨below', fun g' hg' => mem_cons_of_mem g (hsub g' hg'), hlinked⟩

/-! ## Soundness of the invariant -/

variable {s : State}

theorem Inv.infoAt (h : Inv s) (hf : f ∈ s.stack) : s.infoAt f.id = some f.info := by
  have hfind : s.stack.find? (·.id == f.id) = some f := by
    obtain ⟨g, hg⟩ : ∃ g, s.stack.find? (·.id == f.id) = some g :=
      isSome_iff_exists.mp (find?_isSome.mpr ⟨f, hf, by simp⟩)
    have hid : g.id = f.id := by simpa using find?_some hg
    rw [hg, inj_on_of_nodup_map h.nodup (mem_of_find?_eq_some hg) hf hid]
  rw [State.infoAt, hfind]
  rfl

theorem Inv.live_of_owner (h : Inv s) (hf : f ∈ s.stack) (hactive : f.active)
    (howner : f.info.throwInfoIfOwner.isSome) :
    ∃ o throwInfo, f.info.exceptionObjectOrLink = some (.object o)
      ∧ f.info.throwInfoIfOwner = some throwInfo ∧ s.throwInfoOf o = some throwInfo
      ∧ o ∉ s.destroyed := by
  obtain ⟨below, -, hlinked⟩ := h.linked.mem hf
  cases hlinked with
  | unwound hstatus => simp [Frame.active, hstatus] at hactive
  | owner o throwInfo hlink hinfo hthrown =>
    refine ⟨o, throwInfo, hlink, hinfo, hthrown, fun hdestroyed => ?_⟩
    have hone := h.owned o
    have howns : f.owns o = true := by simp [Frame.owns, hactive, hlink, hinfo]
    have hpos : 0 < owners s.stack o := countP_pos_iff.mpr ⟨f, hf, howns⟩
    have hcount := count_pos_iff.mpr hdestroyed
    rw [hthrown, isSome_some, Bool.toNat_true] at hone
    omega
  | link owner _ _ _ _ hinfo => simp [hinfo] at howner
  | pending _ _ hinfo => simp [hinfo] at howner

theorem Inv.sound (h : Inv s) : Sound s where
  owned := by
    intro o hthrown
    rw [h.owned o, hthrown]
    rfl
  linked := by
    intro f hf hactive hinfo ref href
    obtain ⟨below, hsub, hlinked⟩ := h.linked.mem hf
    cases hlinked with
    | unwound hstatus => simp [Frame.active, hstatus] at hactive
    | owner o throwInfo _ howner _ => simp [hinfo] at howner
    | link owner hmem hactive' howner hlink _ =>
      exact ⟨owner, hsub owner hmem, hactive', howner, some.inj (href.symm.trans hlink)⟩
    | pending _ hlink _ => simp [hlink] at href
  handled := by
    intro f hf hstatus
    have hactive := Frame.active_of_handling hstatus
    obtain ⟨below, hsub, hlinked⟩ := h.linked.mem hf
    cases hlinked with
    | unwound hunwound => simp [hstatus] at hunwound
    | owner o throwInfo hlink hinfo hthrown =>
      obtain ⟨o', throwInfo', hlink', hinfo', hthrown', hlive⟩ :=
        h.live_of_owner hf hactive (by simp [hinfo])
      refine ⟨o', throwInfo', ?_, ?_, hthrown', hlive⟩
      · simp [hinfo', hlink']
      · simp [getThrowInfo, hinfo', hlink']
    | link owner hmem hactive' howner hlink hinfo =>
      have howner' := hsub owner hmem
      obtain ⟨o', throwInfo', hlink', hinfo', hthrown', hlive⟩ :=
        h.live_of_owner howner' hactive' howner
      refine ⟨o', throwInfo', ?_, ?_, hthrown', hlive⟩
      · simp [hinfo, hlink, hlink', h.infoAt howner']
      · simp [getThrowInfo, hinfo, hlink, hinfo', h.infoAt howner']
    | pending hthrowing _ _ => simp [hstatus] at hthrowing

/-! ## Steps -/

theorem Inv.throw (h : Inv s) {id o throwInfo : Nat} (hid : id ∉ s.ids) (hnew : s.throwInfoOf o = none) : Inv { s with
      stack := throwFrame id (some (.object o)) (some throwInfo) :: s.stack
      throwInfoOf := Function.update s.throwInfoOf o (some throwInfo) } where
  nodup := nodup_cons.mpr ⟨hid, h.nodup⟩
  linked := by
    refine ⟨.owner o throwInfo rfl rfl (Function.update_self ..), h.linked.mono ?_⟩
    intro o' throwInfo' hthrown
    have hne : o' ≠ o := by
      rintro rfl
      simp [hnew] at hthrown
    exact (Function.update_of_ne hne ..).trans hthrown
  owned := by
    intro o'
    have hbefore := h.owned o'
    rw [owners_cons]
    by_cases he : o' = o
    · subst he
      simp only [hnew, isSome_none, Bool.toNat_false] at hbefore
      simp only [throwFrame_owns_object, beq_self_eq_true, Function.update_self, isSome_some, Bool.toNat_true]
      omega
    · have hne := beq_eq_false_iff_ne.mpr (Ne.symm he)
      simp only [throwFrame_owns_object, hne, Function.update_of_ne he]
      exact hbefore

theorem Inv.rethrow (h : Inv s) {id : Nat} (hid : id ∉ s.ids) :
    Inv { s with stack := throwFrame id none none :: s.stack } where
  nodup := nodup_cons.mpr ⟨hid, h.nodup⟩
  linked := ⟨.pending rfl rfl rfl, h.linked⟩
  owned := fun o => by
    rw [owners_cons, throwFrame_owns_none]
    exact h.owned o

variable {top : Frame}

theorem below_eq (hdrop : below.dropWhile Frame.isUnwound = frame :: rest) :
    below = below.takeWhile Frame.isUnwound ++ frame :: rest := by
  rw [← hdrop, takeWhile_append_dropWhile]

theorem Linked.owns_nothing (h : Linked throwInfoOf below top) (htop : top.status = .throwing)
    (hobj : ∀ o, top.info.exceptionObjectOrLink ≠ some (.object o)) :
    top.info.throwInfoIfOwner = none := by
  cases h with
  | unwound hunwound => simp [htop] at hunwound
  | owner o throwInfo hlink _ _ => exact absurd hlink (hobj o)
  | link _ _ _ _ _ hinfo => exact hinfo
  | pending _ _ hinfo => exact hinfo

theorem Linked.takeOver (h : Linked throwInfoOf rest frame) (hframe : frame.status = .handling)
    (hsub : ∀ f ∈ rest, f ∈ above) : Linked throwInfoOf above { top with info := frame.info } := by
  cases h with
  | unwound hunwound => simp [hframe] at hunwound
  | owner o throwInfo hlink hinfo hthrown => exact .owner o throwInfo hlink hinfo hthrown
  | link owner hmem hactive howner hlink hinfo =>
    exact .link owner (hsub owner hmem) hactive howner hlink hinfo
  | pending hthrowing _ _ => simp [hframe] at hthrowing

theorem Linked.keep (h : Linked throwInfoOf below top) (htop : top.status = .throwing)
    (hpending : top.info.exceptionObjectOrLink ≠ none)
    (hlink : top'.info.exceptionObjectOrLink = top.info.exceptionObjectOrLink)
    (hinfo : top'.info.throwInfoIfOwner = top.info.throwInfoIfOwner)
    (hkept : ∀ f ∈ below, f.active → top.info.exceptionObjectOrLink = some (.catchInfo f.id) → f ∈ above) :
    Linked throwInfoOf above top' := by
  cases h with
  | unwound hunwound => simp [htop] at hunwound
  | owner o throwInfo hobj howner hthrown =>
    exact .owner o throwInfo (hlink.trans hobj) (hinfo.trans howner) hthrown
  | link owner hmem hactive howner hcatch hnone =>
    exact .link owner (hkept owner hmem hactive hcatch) hactive howner (hlink.trans hcatch) (hinfo.trans hnone)
  | pending _ hnone _ => exact absurd hnone hpending

theorem owners_unwound (hactive : t.active) (hframe : frame.status = .handling)
    (hdrop : below.dropWhile Frame.isUnwound = frame :: rest) (o : Nat) :
    owners (t :: (below.takeWhile Frame.isUnwound ++ { frame with status := .unwound } :: rest)) o +
      (frame.info.owns o).toNat = owners below o + (t.info.owns o).toNat := by
  have hleft := Frame.owns_of_unwound (f := { frame with status := .unwound }) rfl o
  have hbelow := congrArg (owners · o) (below_eq hdrop)
  simp only [owners_append, owners_cons, Frame.owns_of_active (Frame.active_of_handling hframe)] at hbelow
  simp only [owners_cons, owners_append, Frame.owns_of_active hactive, hleft, Bool.toNat_false]
  omega

section
variable (h : Inv s) (hstack : s.stack = top :: below)
include h hstack

theorem Inv.split :
    Linked s.throwInfoOf below top ∧ WellLinked s.throwInfoOf below ∧ (top.id :: below.map (·.id)).Nodup := by
  have hlinked := h.linked
  have hnodup := h.nodup
  rw [State.ids] at hnodup
  rw [hstack] at hlinked hnodup
  exact ⟨hlinked.1, hlinked.2, hnodup⟩

theorem Inv.owned_split (hactive : top.active) (o : Nat) :
    owners below o + (top.info.owns o).toNat + s.destroyed.count o = (s.throwInfoOf o).isSome.toNat := by
  have howned := h.owned o
  rwa [hstack, owners_cons, Frame.owns_of_active hactive] at howned

theorem Inv.relink (hold : top.info.throwInfoIfOwner = none) (hnew : info.throwInfoIfOwner = none)
    (hlinked : Linked s.throwInfoOf below { top with info, moved }) :
    Inv { s with stack := { top with info, moved } :: below } where
  nodup := by simpa [State.ids, hstack] using h.nodup
  linked := ⟨hlinked, (h.split hstack).2.1⟩
  owned := by
    intro o
    have hbefore := h.owned o
    rw [hstack] at hbefore
    simpa [owners_cons, Frame.owns, hold, hnew] using hbefore

theorem Inv.probe (htop : top.info.throwInfoIfOwner = none) (hframe : frame ∈ below)
    (hstatus : frame.status = .handling) (hprobe : probeFrame top.info frame = some info) :
    Inv { s with stack := { top with info, moved } :: below } := by
  have hactive := Frame.active_of_handling hstatus
  unfold probeFrame at hprobe
  split at hprobe
  · cases hprobe
  · rename_i ref href
    split_ifs at hprobe with howner
    · obtain rfl := some.inj hprobe
      exact h.relink hstack htop htop (.link frame hframe hactive howner rfl htop)
    · obtain rfl := some.inj hprobe
      obtain ⟨below', hsub, hlinked⟩ := (h.split hstack).2.1.mem hframe
      refine h.relink hstack htop htop ?_
      cases hlinked with
      | unwound hunwound => simp [hstatus] at hunwound
      | owner o throwInfo _ hinfo _ => simp [hinfo] at howner
      | link owner hmem hactive' howner hlink' _ =>
        exact .link owner (hsub owner hmem) hactive' howner (href.symm.trans hlink') htop
      | pending hthrowing _ _ => simp [hstatus] at hthrowing

theorem Inv.unwind (hdrop : below.dropWhile Frame.isUnwound = frame :: rest) (htop : top.status = .throwing)
    (hframe : frame.status = .handling) {destroyed : List Nat}
    (hunwind : unwindFrame top.info frame s.destroyed = (info, destroyed)) :
    Inv { s with
      stack := { top with info } :: (below.takeWhile Frame.isUnwound ++ { frame with status := .unwound } :: rest)
      destroyed := destroyed } := by
  have hbelow := below_eq hdrop
  have hactive := Frame.active_of_throwing htop
  obtain ⟨hlinkedTop, hlinkedBelow, hids⟩ := h.split hstack
  rw [hbelow] at hlinkedTop hlinkedBelow hids
  obtain ⟨hlinkedFrame, hlinkedRest⟩ := hlinkedBelow.of_append
  have hgone : ∀ g ∈ below.takeWhile Frame.isUnwound ++ frame :: rest, g.active → g ≠ frame →
      g ∈ below.takeWhile Frame.isUnwound ++ { frame with status := .unwound } :: rest := by
    intro g hg hactive hne
    rcases mem_append.mp hg with htake | hdrop
    · exact mem_append_left _ htake
    · rcases mem_cons.mp hdrop with rfl | hrest
      · exact absurd rfl hne
      · exact mem_append_right _ (mem_cons_of_mem _ hrest)
  have hwell : WellLinked s.throwInfoOf
      (below.takeWhile Frame.isUnwound ++ { frame with status := .unwound } :: rest) :=
    .append (fun _ hu => mem_takeWhile_imp hu) ⟨.unwound rfl, hlinkedRest⟩
  have hnodup : (State.ids { s with
      stack := { top with info } :: (below.takeWhile Frame.isUnwound
        ++ { frame with status := .unwound } :: rest) }).Nodup := by
    simpa [State.ids] using hids
  unfold unwindFrame at hunwind
  split_ifs at hunwind with htake
  · obtain ⟨rfl, rfl⟩ := Prod.mk.inj hunwind
    have hnone := hlinkedTop.owns_nothing htop fun o hlink => by simp [hlink] at htake
    refine ⟨hnodup, ⟨?_, hwell⟩, fun o => ?_⟩
    · exact hlinkedFrame.takeOver hframe fun f hf =>
        mem_append_right _ (mem_cons_of_mem _ hf)
    · have hbefore := h.owned_split hstack hactive o
      have hafter := owners_unwound (t := { top with info := frame.info }) hactive hframe hdrop o
      rw [CatchInfo.owns_of_none hnone, Bool.toNat_false] at hbefore
      simp only at hafter ⊢
      omega
  · rw [not_or] at htake
    obtain ⟨rfl, rfl⟩ := Prod.mk.inj hunwind
    refine ⟨hnodup, ⟨?_, hwell⟩, fun o => ?_⟩
    · refine hlinkedTop.keep htop htake.1 rfl rfl fun f hf hactive hlink => ?_
      exact hgone f hf hactive fun he => htake.2 (he ▸ hlink)
    · have hbefore := h.owned_split hstack hactive o
      have hafter := owners_unwound (t := { top with info := { top.info with
        primaryFramePtr := frame.info.primaryFramePtr, unwindContext := frame.info.unwindContext } })
        hactive hframe hdrop o
      simp only [CatchInfo.owns, count_destroyException] at hbefore hafter ⊢
      omega

theorem Inv.enter (htop : top.status = .throwing) (hlink : top.info.exceptionObjectOrLink ≠ none)
    (hsame : info.exceptionObjectOrLink = top.info.exceptionObjectOrLink)
    (hinfo : info.throwInfoIfOwner = top.info.throwInfoIfOwner) :
    Inv { s with
      stack := { top with info, status := .handling } :: below.dropWhile Frame.isUnwound } := by
  obtain ⟨hlinkedTop, hlinkedBelow, hids⟩ := h.split hstack
  constructor
  · exact hids.sublist (((dropWhile_sublist _).map _).cons_cons _)
  · refine ⟨?_, hlinkedBelow.dropWhile⟩
    exact hlinkedTop.keep htop hlink hsame hinfo fun f hf hactive _ =>
      active_mem_dropWhile hf hactive
  · intro o
    have hbefore := h.owned_split hstack (Frame.active_of_throwing htop) o
    have hnew := Frame.owns_of_active (f := { top with info, status := .handling }) rfl o
    simpa only [owners_cons, owners_dropWhile, hnew, CatchInfo.owns, hsame, hinfo] using hbefore

theorem Inv.exit (htop : top.status = .handling) :
    Inv { s with stack := below, destroyed := destroyException s.destroyed top.info } := by
  obtain ⟨_, hlinkedBelow, hids⟩ := h.split hstack
  refine ⟨hids.of_cons, hlinkedBelow, fun o => ?_⟩
  have hbefore := h.owned_split hstack (Frame.active_of_handling htop) o
  simp only [count_destroyException]
  omega

theorem Inv.top_pending (hlink : top.info.exceptionObjectOrLink = none) (htop : top.status = .throwing) :
    top.info.throwInfoIfOwner = none :=
  (h.split hstack).1.owns_nothing htop (by simp [hlink])

end

theorem mem_of_nearestCatch (hnear : nearestCatch (top :: below) = some frame) : frame ∈ below :=
  (dropWhile_sublist _).subset (mem_of_find?_eq_some hnear)

/-! ## What a step destroys -/

theorem destroyException_cases (destroyed : List Nat) (ci : CatchInfo) : destroyException destroyed ci = destroyed
      ∨ ∃ o, destroyException destroyed ci = o :: destroyed ∧ ci.owns o := by
  obtain ⟨primaryFramePtr, link, throwInfo, unwindContext⟩ := ci
  cases throwInfo with
  | none => exact Or.inl rfl
  | some throwInfo =>
    match link with
    | none | some (.catchInfo _) => exact Or.inl rfl
    | some (.object o) => exact Or.inr ⟨o, rfl, by simp⟩

theorem Inv.owner_unique (h : Inv s) (hf : f ∈ s.stack) (hg : g ∈ s.stack) (hfo : f.owns o) (hgo : g.owns o) :
    f = g := by
  by_contra hne
  have htwo : 2 ≤ owners s.stack o := two_le_countP hf hg hne hfo hgo
  have hone := h.owned o
  have := Bool.toNat_le (s.throwInfoOf o).isSome
  omega

theorem Inv.object_ne (h : Inv s) (hstack : s.stack = top :: below) (hmem : frame ∈ below)
    (htop : top.status = .throwing) (hframe : frame.status = .handling) (howns : frame.owns o)
    (hlink : top.info.exceptionObjectOrLink ≠ some (.catchInfo frame.id)) :
    getExceptionObject s top.info ≠ some o := by
  have hbelow : ∀ g ∈ below, g ∈ s.stack := fun g hg => hstack ▸ mem_cons_of_mem top hg
  intro hobj
  cases (h.split hstack).1 with
  | unwound hunwound => simp [htop] at hunwound
  | owner o' throwInfo hlink' hinfo _ =>
    have hsame : o' = o := by simpa [hlink', hinfo] using hobj
    have htopOwns : top.owns o = true := by
      simp [Frame.owns_of_active (Frame.active_of_throwing htop), hinfo, hlink', hsame]
    have hmemTop : top ∈ s.stack := hstack ▸ mem_cons_self
    have heq := h.owner_unique hmemTop (hbelow frame hmem) htopOwns howns
    simp [heq, hframe] at htop
  | link owner hmem' hactive howner hlink' hinfo =>
    obtain ⟨o', throwInfo, hobj', hinfo', -, -⟩ :=
      h.live_of_owner (hbelow owner hmem') hactive howner
    have hsame : o' = o := by
      simpa [hlink', hinfo, hobj', h.infoAt (hbelow owner hmem')] using hobj
    have hownerOwns : owner.owns o = true := by
      simp [Frame.owns_of_active hactive, hinfo', hobj', hsame]
    have heq := h.owner_unique (hbelow owner hmem') (hbelow frame hmem) hownerOwns howns
    exact hlink (heq ▸ hlink')
  | pending _ hnone hinfo => simp [hnone, hinfo] at hobj

theorem exists_cons_of_match {f : Frame → List Frame → Option State}
    (h : (match l with | [] => none | top :: below => f top below) = some s) :
    ∃ top below, l = top :: below ∧ f top below = some s := by
  cases l with
  | nil => cases h
  | cons top below => exact ⟨top, below, rfl, h⟩

/-- Where no throw frame is left out, a handler stands on what has not been unwound. -/
theorem walked_eq (hstack : s.stack = top :: below) (h : s.skipsThrow = false) :
    walked top below = below.dropWhile Frame.isUnwound := by
  simp only [State.skipsThrow, State.topMoved, hstack, head?_cons, any_some, tail_cons,
    Bool.and_eq_false_iff] at h
  rw [walked]
  cases hmoved : top.moved with
  | false => rfl
  | true =>
    have hnext := h.resolve_left (by simp [hmoved])
    cases hrest : below.dropWhile Frame.isUnwound with
    | nil => rfl
    | cons frame rest =>
      rw [hrest, head?_cons, any_some] at hnext
      simp [hnext]

/-- A step keeps the invariant and destroys only what its frame owns. -/
theorem Inv.step (h : Inv s) (hattached : Attached s a) (hstep : step s a = some s') :
    Inv s' ∧ DestroysOwned s a s' := by
  cases a with
  | throw id o throwInfo =>
    obtain ⟨⟨hid, hnew⟩, rfl⟩ := guarded hstep
    exact ⟨h.throw hid hnew, Or.inl rfl⟩
  | rethrow id =>
    obtain ⟨hid, rfl⟩ := guarded hstep
    exact ⟨h.rethrow hid, Or.inl rfl⟩
  | probe =>
    obtain ⟨top, below, hstack, hstep⟩ := exists_cons_of_match hstep
    obtain ⟨⟨htop, hlink⟩, hstep⟩ := ite_none_right_eq_some.mp hstep
    obtain ⟨frame, hnear, hstep⟩ := bind_eq_some_iff.mp hstep
    obtain ⟨info, hprobe, rfl⟩ := map_eq_some_iff.mp hstep
    refine ⟨?_, Or.inl rfl⟩
    exact h.probe hstack (h.top_pending hstack hlink htop) (mem_of_nearestCatch (hstack ▸ hnear))
      (hattached frame hnear) hprobe
  | unwindPast =>
    simp only [CatchFrames.step] at hstep
    obtain ⟨top, below, hstack, hstep⟩ := exists_cons_of_match hstep
    obtain ⟨frame, rest, hdrop, hstep⟩ := exists_cons_of_match hstep
    obtain ⟨⟨htop, hframe⟩, rfl⟩ := guarded hstep
    refine ⟨h.unwind hstack hdrop htop hframe rfl, ?_⟩
    by_cases htake : top.info.exceptionObjectOrLink = none ∨ top.info.exceptionObjectOrLink = some (.catchInfo frame.id)
    · exact Or.inl (by simp [unwindFrame, htake])
    · rcases destroyException_cases s.destroyed frame.info with hsame | ⟨o, hnew, howns⟩
      · exact Or.inl (by simpa [unwindFrame, htake] using hsame)
      · have hmem : frame ∈ below := by
          rw [below_eq hdrop]
          exact mem_append_right _ mem_cons_self
        have howns' := (Frame.owns_of_active (Frame.active_of_handling hframe) o).trans howns
        have hother := h.object_ne hstack hmem htop hframe howns' (not_or.mp htake).2
        exact Or.inr ⟨o, by simpa [unwindFrame, htake] using hnew,
          Or.inr ⟨rfl, top, below, hstack, hother, frame, rest, hdrop, howns'⟩⟩
  | enter primaryFramePtr unwindContext =>
    obtain ⟨top, below, hstack, hstep⟩ := exists_cons_of_match hstep
    obtain ⟨⟨htop, hlink⟩, rfl⟩ := guarded hstep
    rw [walked_eq hstack hattached]
    exact ⟨h.enter hstack htop hlink rfl rfl, Or.inl rfl⟩
  | exit =>
    obtain ⟨top, below, hstack, hstep⟩ := exists_cons_of_match hstep
    obtain ⟨htop, rfl⟩ := guarded hstep
    refine ⟨h.exit hstack htop, ?_⟩
    rcases destroyException_cases s.destroyed top.info with hsame | ⟨o, hnew, howns⟩
    · exact Or.inl hsame
    · exact Or.inr ⟨o, hnew, Or.inl ⟨rfl, top, below, hstack,
        (Frame.owns_of_active (Frame.active_of_handling htop) o).trans howns⟩⟩
  | escape => exact hattached.elim

/-! ## Runs -/

/-- In every run of attached steps every object has one owner until it is destroyed, every link
leads to one, and a step destroys only the object of the handler frame it leaves. -/
theorem sound_of_attached {actions : List Action} {s : State} (hrun : Run step Attached State.initial actions s) :
    Sound s ∧ ∀ a s', Attached s a → step s a = some s' → DestroysOwned s a s' := by
  have hinv : Inv s := hrun.invariant (fun _ _ _ h hattached hstep => (h.step hattached hstep).1) initial_inv
  exact ⟨hinv.sound, fun _ _ hattached hstep => (hinv.step hattached hstep).2⟩

/-- A handler rethrows into a nested handler, after a probe, which rethrows out of both; the
exception is caught again. -/
def rethrowTwice : List Action :=
  [.throw 10 1 7, .enter 0 0, .rethrow 9, .probe, .enter 0 0, .rethrow 8, .unwindPast, .unwindPast, .enter 0 0]

theorem sound_of_rethrowTwice : ∃ s, Run step Attached State.initial rethrowTwice s
      ∧ s.stack = [⟨8, ⟨0, some (.object 1), some 7, some 0⟩, .handling, false⟩]
      ∧ (Sound s ∧ ∀ a s', Attached s a → step s a = some s' → DestroysOwned s a s') := by
  obtain ⟨s, hrun, hs⟩ : ∃ s, Run step Attached State.initial rethrowTwice s
      ∧ s.stack = [⟨8, ⟨0, some (.object 1), some 7, some 0⟩, .handling, false⟩] :=
    run_of_exec_map (by decide +kernel)
  exact ⟨s, hrun, hs, sound_of_attached hrun⟩

/-- A handler throws another object, which destroys the handler's own. A destructor run by that
dispatch rethrows, and the handler entered has the destroyed object. -/
def rethrowInDestructor : List Action :=
  [.throw 10 1 7, .enter 0 0, .throw 9 2 7, .unwindPast, .rethrow 8, .probe, .enter 0 0]

theorem destroyed_object_handled : ∃ s, Run step (fun _ _ => True) State.initial rethrowInDestructor s
      ∧ s.stack.head? = some ⟨8, ⟨0, some (.catchInfo 10), none, some 0⟩, .handling, true⟩
      ∧ s.destroyed = [1] ∧ getExceptionObject s ⟨0, some (.catchInfo 10), none, some 0⟩ = some 1
      ∧ ¬Sound s := by
  obtain ⟨s, hrun, hs⟩ : ∃ s, Run step (fun _ _ => True) State.initial rethrowInDestructor s
      ∧ (s.stack.head?, s.destroyed, getExceptionObject s ⟨0, some (.catchInfo 10), none, some 0⟩)
        = (some ⟨8, ⟨0, some (.catchInfo 10), none, some 0⟩, .handling, true⟩, [1], some 1) :=
    run_of_exec_map (by decide +kernel)
  simp only [Prod.mk.injEq] at hs
  obtain ⟨hstack, hdestroyed, hobj⟩ := hs
  refine ⟨s, hrun, hstack, hdestroyed, hobj, fun hsound => ?_⟩
  obtain ⟨o, throwInfo, ho, -, -, hlive⟩ := hsound.handled _ (mem_of_mem_head? hstack) rfl
  obtain rfl := some.inj (hobj.symm.trans ho)
  simp [hdestroyed] at hlive

end Ktl.CatchFrames
