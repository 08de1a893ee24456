import ThirdPersonMP.Library.Run
import Mathlib.Algebra.Order.ZeroLEOne
import Mathlib.Algebra.Ring.Int.Defs
import Mathlib.Data.Int.Order.Basic
import Mathlib.Order.Lattice

/-!
# The player's movement

`AMyPlayerController::PlayerTick` (`MyPlayerController.cpp`) sends the player's rotation,
location and speed to the server when they are no longer those that were sent last
(`isNeedSyncMove`). What was sent last is remembered in three fields, which `syncMove` sets.

Rotations, locations and speeds are opaque, with a squared distance of locations that is
`0` on equal ones. Between two calls of the engine they do not change; from one tick to the
next they may, and the character, its movement component and `UMgrMessage` may come and go.

`Current` is what is wanted: after a tick at which all three are there, the server has been
told of the player's state. It fails (`not_current`): `syncMove` sets the rotation and the
location before it finds that the character is gone, so they pass for sent. `current_run`
is the condition under which it holds: `Whole`, that `syncMove` finds all three.
-/

namespace ThirdPersonMP.System

open Library

variable {Rotator Vector Speed Distance Pos : Type*}

/-! ### State -/

/-- What the source uses of the engine and of `DefinePos.h`. -/
structure Engine (Rotator Vector Distance Pos : Type*) where
  /-- `FVector::DistSquared`. -/
  distSquared : Vector → Vector → Distance
  /-- `FRotator2Rotate`. -/
  fRotator2Rotate : Rotator → UInt32
  /-- `FVector2CMDPos`. -/
  fVector2CMDPos : Vector → Pos

/-- What is synchronized. -/
structure MoveState (Rotator Vector Speed : Type*) where
  rotation : Rotator
  location : Vector
  speed : Speed
  deriving DecidableEq

/-- `CMD::MoveStateCmd`, the `cmd` of a `C2G_MoveStateArg`. -/
structure MoveStateCmd (Speed Pos : Type*) where
  rotate : UInt32
  speed : Speed
  guid : UInt64
  curpos : Pos
  deriving DecidableEq

/-- The members of `AMyPlayerController`, and a history that no step reads. -/
structure AMyPlayerController (Rotator Vector Speed Pos : Type*) where
  /-- `m_lastSyncLocation`. -/
  mLastSyncLocation : Vector
  /-- `m_lastSyncRotation`. -/
  mLastSyncRotation : Rotator
  /-- `m_lastSyncSpeed`. -/
  mLastSyncSpeed : Speed
  /-- History: the arguments passed to `UMgrMessage::Send`, and what they were built from. -/
  sent : List (MoveStateCmd Speed Pos × MoveState Rotator Vector Speed) := []

/-- What a tick finds. -/
structure World (Rotator Vector Speed : Type*) where
  /-- `GetControlRotation()`. -/
  controlRotation : Rotator
  /-- `GetFocalLocation()`. -/
  focalLocation : Vector
  /-- `GetCharacter()`, its `GetCharacterMovement()`, and `GetMaxSpeed()`. -/
  character : Option (Option Speed)
  /-- `GetSubsystem<UMgrMessage>()`, and `GetAccid()`. -/
  mgrMessage : Option UInt64

/-- The state of the player, when the character and its movement component are there. -/
def World.moveState (w : World Rotator Vector Speed) : Option (MoveState Rotator Vector Speed) :=
  w.character.join.map fun speed => ⟨w.controlRotation, w.focalLocation, speed⟩

/-- The character, its movement component and `UMgrMessage` are there. -/
def World.Present (w : World Rotator Vector Speed) : Prop :=
  w.character.join.isSome ∧ w.mgrMessage.isSome

instance (w : World Rotator Vector Speed) : Decidable w.Present :=
  inferInstanceAs (Decidable (_ ∧ _))

/-! ### A tick -/

namespace AMyPlayerController

section

variable [LinearOrder Distance] [One Distance] [DecidableEq Rotator] [DecidableEq Speed]
  (E : Engine Rotator Vector Distance Pos) (c : AMyPlayerController Rotator Vector Speed Pos)
  (w : World Rotator Vector Speed)

/-- `isNeedSyncMove` (21–40). -/
def isNeedSyncMove : Bool :=
  if w.controlRotation ≠ c.mLastSyncRotation then true
  else if E.distSquared c.mLastSyncLocation w.focalLocation > 1 then true
  else
    match w.character with
    | none | some none => false
    | some (some nowSpeed) => nowSpeed ≠ c.mLastSyncSpeed

end

section

variable (E : Engine Rotator Vector Distance Pos)
  (c : AMyPlayerController Rotator Vector Speed Pos) (w : World Rotator Vector Speed)

/-- The argument that `syncMove` sends, and what it is built from (53–61). -/
def moveStateArg (accid : UInt64) : MoveStateCmd Speed Pos × MoveState Rotator Vector Speed :=
  ({ rotate := E.fRotator2Rotate c.mLastSyncRotation
     speed := c.mLastSyncSpeed
     guid := accid
     curpos := E.fVector2CMDPos c.mLastSyncLocation },
    ⟨c.mLastSyncRotation, c.mLastSyncLocation, c.mLastSyncSpeed⟩)

/-- `syncMove` (42–63). -/
def syncMove : AMyPlayerController Rotator Vector Speed Pos :=
  let c := { c with
    mLastSyncRotation := w.controlRotation
    mLastSyncLocation := w.focalLocation }
  match w.character with
  | none | some none => c
  | some (some maxSpeed) =>
    let c := { c with mLastSyncSpeed := maxSpeed }
    match w.mgrMessage with
    | none => c
    | some accid => { c with sent := c.sent ++ [c.moveStateArg E accid] }

end

section

variable [LinearOrder Distance] [One Distance] [DecidableEq Rotator] [DecidableEq Speed]
  (E : Engine Rotator Vector Distance Pos) (c : AMyPlayerController Rotator Vector Speed Pos)
  (w : World Rotator Vector Speed)

/-- `PlayerTick` (12–19). -/
def playerTick : AMyPlayerController Rotator Vector Speed Pos :=
  if c.isNeedSyncMove E w then c.syncMove E w else c

/-- A tick as a step; it is always possible. -/
def step : Option (AMyPlayerController Rotator Vector Speed Pos) := some (c.playerTick E w)

end

end AMyPlayerController

/-! ### What the server has been told -/

section

variable [LinearOrder Distance] [One Distance] (E : Engine Rotator Vector Distance Pos)
  (zero : MoveState Rotator Vector Speed)

/-- Before the first tick. -/
def AMyPlayerController.initial : AMyPlayerController Rotator Vector Speed Pos :=
  { mLastSyncLocation := zero.location
    mLastSyncRotation := zero.rotation
    mLastSyncSpeed := zero.speed }

/-- What the last argument was built from; the initial values, if none was sent. -/
def AMyPlayerController.lastSent (c : AMyPlayerController Rotator Vector Speed Pos) :
    MoveState Rotator Vector Speed :=
  (c.sent.getLast?.map Prod.snd).getD zero

/-- The state that the server was told last is the one that the tick found: the same
rotation, the same speed, and a location no farther than `1`. -/
def Current (c : AMyPlayerController Rotator Vector Speed Pos) (w : World Rotator Vector Speed) :
    Prop :=
  w.Present → ∀ now ∈ w.moveState,
    (c.lastSent zero).rotation = now.rotation ∧
      E.distSquared (c.lastSent zero).location now.location ≤ 1 ∧
      (c.lastSent zero).speed = now.speed

variable [DecidableEq Rotator] [DecidableEq Speed]

/-- When `syncMove` is called, the character, its movement component and `UMgrMessage` are
there. -/
def Whole (c : AMyPlayerController Rotator Vector Speed Pos) (w : World Rotator Vector Speed) :
    Prop :=
  c.isNeedSyncMove E w = true → w.Present

instance (c : AMyPlayerController Rotator Vector Speed Pos) (w : World Rotator Vector Speed) :
    Decidable (Whole E c w) :=
  inferInstanceAs (Decidable (_ → _))

/-- What is remembered was sent. -/
def Synced (c : AMyPlayerController Rotator Vector Speed Pos) : Prop :=
  c.lastSent zero = ⟨c.mLastSyncRotation, c.mLastSyncLocation, c.mLastSyncSpeed⟩

variable {E zero} {c : AMyPlayerController Rotator Vector Speed Pos}
  {w : World Rotator Vector Speed}

omit [LinearOrder Distance] [One Distance] [DecidableEq Rotator] [DecidableEq Speed] in
/-- `syncMove` when everything is there: the current state is remembered, and sent. -/
theorem syncMove_of_present (hw : w.Present) : ∃ now ∈ w.moveState,
    (c.syncMove E w).lastSent zero = now ∧ Synced zero (c.syncMove E w) := by
  obtain ⟨hspeed, haccid⟩ := hw
  obtain ⟨speed, hspeed⟩ := Option.isSome_iff_exists.mp hspeed
  obtain ⟨accid, haccid⟩ := Option.isSome_iff_exists.mp haccid
  have hcharacter : w.character = some (some speed) := Option.join_eq_some_iff.mp hspeed
  have hsync : (c.syncMove E w).lastSent zero = ⟨w.controlRotation, w.focalLocation, speed⟩ := by
    simp only [AMyPlayerController.syncMove, hcharacter, haccid, AMyPlayerController.lastSent,
      List.getLast?_concat, Option.map_some, Option.getD_some, AMyPlayerController.moveStateArg]
  refine ⟨⟨w.controlRotation, w.focalLocation, speed⟩, ?_, hsync, ?_⟩
  · simp only [World.moveState, hspeed, Option.map_some, Option.mem_some]
  · rw [Synced, hsync]
    simp only [AMyPlayerController.syncMove, hcharacter, haccid]

/-- What `isNeedSyncMove` compares, when it is false. -/
theorem eq_of_isNeedSyncMove (h : c.isNeedSyncMove E w = false) :
    c.mLastSyncRotation = w.controlRotation ∧
      E.distSquared c.mLastSyncLocation w.focalLocation ≤ 1 ∧
      ∀ speed ∈ w.character.join, c.mLastSyncSpeed = speed := by
  unfold AMyPlayerController.isNeedSyncMove at h
  split at h
  · cases h
  · rename_i hrot
    split at h
    · cases h
    · rename_i hdist
      refine ⟨(not_not.mp hrot).symm, not_lt.mp hdist, fun speed hspeed => ?_⟩
      rw [Option.join_eq_some_iff.mp hspeed] at h
      simp only [ne_eq, decide_not, Bool.not_eq_false', decide_eq_true_eq] at h
      exact h.symm

/-- **A tick** at which `syncMove` finds everything keeps what is remembered sent, and
leaves the server with the current state. -/
theorem current_playerTick [Zero Distance] [ZeroLEOneClass Distance]
    (hdist : ∀ v, E.distSquared v v = 0) (hc : Synced zero c) (hw : Whole E c w) :
    Synced zero (c.playerTick E w) ∧ Current E zero (c.playerTick E w) w := by
  unfold AMyPlayerController.playerTick
  split
  · rename_i hneed
    obtain ⟨now, hnow, hsent, hsync⟩ : ∃ now ∈ w.moveState,
        (c.syncMove E w).lastSent zero = now ∧ Synced zero (c.syncMove E w) :=
      syncMove_of_present (hw hneed)
    refine ⟨hsync, fun _ now' hnow' => ?_⟩
    rw [hnow, Option.mem_some] at hnow'
    rw [hsent, hnow', hdist]
    exact ⟨rfl, zero_le_one, rfl⟩
  · rename_i hneed
    obtain ⟨hrot, hloc, hspeed⟩ := eq_of_isNeedSyncMove (Bool.eq_false_iff.mpr hneed)
    refine ⟨hc, fun _ now hnow => ?_⟩
    obtain ⟨speed, hmem, rfl⟩ := Option.map_eq_some_iff.mp hnow
    rw [hc]
    exact ⟨hrot, hloc, hspeed speed hmem⟩

/-- **In every run of ticks at which `syncMove` finds everything**, whatever the player does
and whatever comes and goes in between: after every tick that finds the character, its
movement component and `UMgrMessage`, the server has the current state. -/
theorem current_run [Zero Distance] [ZeroLEOneClass Distance]
    (hdist : ∀ v, E.distSquared v v = 0) {ws : List (World Rotator Vector Speed)}
    (h : run (AMyPlayerController.step E) (.initial zero) (ws ++ [w]) = some c)
    (hw : EachStep (AMyPlayerController.step E) (Whole E) (.initial zero) (ws ++ [w])) :
    Current E zero c w := by
  obtain ⟨m, hm, ha⟩ := (run_concat _).mp h
  obtain ⟨hws, hlast⟩ := eachStep_concat hw hm
  have hstart : Synced zero (.initial zero : AMyPlayerController Rotator Vector Speed Pos) := rfl
  have hsynced : Synced zero m := by
    refine run_invariant_of_eachStep (AMyPlayerController.step E) hstart ?_ hws hm
    intro c w c' hc hw hstep
    cases hstep
    exact (current_playerTick hdist hc hw).1
  cases ha
  exact (current_playerTick hdist hsynced hlast).2

end

/-! ### A player on a line -/

/-- Rotations, locations and speeds are integers. -/
def line : Engine ℤ ℤ ℤ ℤ where
  distSquared x y := (x - y) * (x - y)
  fRotator2Rotate rotation := .ofInt rotation
  fVector2CMDPos location := location

/-- The initial values. -/
def origin : MoveState ℤ ℤ ℤ := ⟨0, 0, 0⟩

/-- A tick with the character and `UMgrMessage`, and one without the character. -/
def withCharacter (rotation location : ℤ) : World ℤ ℤ ℤ :=
  ⟨rotation, location, some (some 6), some 1⟩

def withoutCharacter (rotation location : ℤ) : World ℤ ℤ ℤ := ⟨rotation, location, none, some 1⟩

/-- The player turns, loses its character and makes a step. -/
def turnAndStep : List (World ℤ ℤ ℤ) := [withCharacter 3 0, withoutCharacter 3 1]

/-- When the character is back, the server has a state that is near enough. -/
theorem current_run_line :
    ∃ c, run (AMyPlayerController.step line) (.initial origin)
        (turnAndStep ++ [withCharacter 3 1]) = some c ∧
      EachStep (AMyPlayerController.step line) (Whole line) (.initial origin)
        (turnAndStep ++ [withCharacter 3 1]) ∧
      Current line origin c (withCharacter 3 1) := by
  have hw : EachStep (AMyPlayerController.step line) (Whole line) (.initial origin)
    (turnAndStep ++ [withCharacter 3 1]) := by decide
  have hdist : ∀ v, line.distSquared v v = 0 := fun v => by
    show (v - v) * (v - v) = 0
    rw [Int.sub_self, Int.zero_mul]
  refine ⟨_, rfl, hw, ?_⟩
  exact current_run hdist rfl hw

/-- The player turns while the character is gone. When it is back, nothing is sent, and the
server has the rotation from before. -/
theorem not_current :
    ∃ c, run (AMyPlayerController.step line) (.initial origin)
        [withCharacter 3 0, withoutCharacter 5 0, withCharacter 5 0] = some c ∧
      (withCharacter 5 0).Present ∧ c.lastSent origin = ⟨3, 0, 6⟩ ∧
      ¬ Current line origin c (withCharacter 5 0) := by
  refine ⟨_, rfl, by decide, by decide, fun h => ?_⟩
  have hrot := (h (by decide) ⟨5, 0, 6⟩ rfl).1
  exact absurd hrot (by decide)

end ThirdPersonMP.System
