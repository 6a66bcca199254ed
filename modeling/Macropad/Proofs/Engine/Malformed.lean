import Mathlib
import Macropad.Proofs.Engine.CallDepth
import Macropad.Proofs.Engine.Unrolling

/-!
# Malformed instructions

An instruction is malformed when its opcode is unknown, when its loop header is broken, or when its
argument is not what its opcode takes. The engine passes over such an instruction: it calls no
collaborator, leaves everything but the counter and the pauses as it is, and goes on with the next
one (`execute_malformed`).

It overlooks two kinds of them (`Overlooked`). A broken header does not keep the engine from what
stands behind it, so an instruction that is sound but for its header is performed once, as if it
had none (`run_of_broken`); the header that is never closed is the exception, since it leaves the
bracket as the opcode (`not_overlooked_of_unclosed`). And of a drag with one bad side the other one
is looked for all the same if it is an image, which may take for ever (`perform_of_image_side`).
-/

set_option autoImplicit false

namespace Macropad.Engine

open Macropad.Input Macropad.Language Macropad.Screen Macropad.Setting

variable {σ ι : Type}

/-! ### What opcodes take -/

/-- The side of a drag is an image and no place. -/
def IsImageSide (side : List Char) : Prop :=
  Point.read side = none ∧ ∃ image, ImageRef.parse (String.ofList side) = .ok image

/-- The side of a drag is a place or an image. -/
def IsSide (side : List Char) : Prop := (Point.read side).isSome ∨ IsImageSide side

/-- The argument has the shape. -/
def HasShape (argument : String) : ArgShape → Prop
  | .empty | .text | .commandName => True
  | .point => (Point.read argument.toList).isSome
  | .millis => (Number.readWord64 argument.toList).isSome
  | .count => argument = "" ∨ (Number.readWord64 argument.toList).isSome
  | .setting => ∃ key value change, Text.cutFirst ':' argument.toList = some (key, value) ∧
      SettingUpdate.parse (String.ofList key) (String.ofList value) = .ok change
  | .endpoints => ∃ start finish, Text.cutFirst ',' argument.toList = some (start, finish) ∧
      IsSide start ∧ IsSide finish
  | .image => ∃ image, ImageRef.parse argument = .ok image
  | .imageWithTimeout => ∃ timed, TimedImage.parse argument = .ok timed
  | .loopHeader => False

/-- The instruction has a loop header that asks for no loop. -/
def HasBrokenHeader (i : Instruction) : Prop := i.header.isSome ∧ i.loop? = none

inductive Malformed (i : Instruction) : Prop
  | unknown (hopcode : i.opcode? = none)
  | header (hheader : HasBrokenHeader i)
  | argument {op : Opcode} (hopcode : i.opcode? = some op) (hshape : ¬HasShape i.argument op.shape)

/-- The malformed instructions that the engine does not pass over. -/
inductive Overlooked (i : Instruction) : Prop
  | header {op : Opcode} (hheader : HasBrokenHeader i) (hopcode : i.opcode? = some op)
      (hshape : HasShape i.argument op.shape)
  | side {start finish : List Char} (hopcode : i.opcode? = some .drag)
      (hsides : Text.cutFirst ',' i.argument.toList = some (start, finish))
      (hbad : ¬(IsSide start ∧ IsSide finish)) (himage : IsImageSide start ∨ IsImageSide finish)

/-- What of the sides of a drag is looked for. -/
theorem endpoint?_eq_none_iff {side : List Char} : Action.endpoint? side = none ↔ ¬IsSide side := by
  rw [Action.endpoint?, IsSide, IsImageSide]
  cases Point.read side with
  | some place => simp
  | none => cases ImageRef.parse (String.ofList side) <;> simp

theorem endpoint?_eq_image_iff {side : List Char} :
    (∃ image, Action.endpoint? side = some (.image image)) ↔ IsImageSide side := by
  rw [Action.endpoint?, IsImageSide]
  cases Point.read side with
  | some place => simp
  | none => cases ImageRef.parse (String.ofList side) <;> simp

/-- Without an argument of its shape, no opcode but that of a drag asks for anything. -/
theorem ofOpcode?_eq_none {op : Opcode} {argument : String} (hshape : ¬HasShape argument op.shape)
    (hdrag : op ≠ .drag) : Action.ofOpcode? op argument = none := by
  cases op with
  | startMenu | maximize | minimize | screenshot | copy | paste | selectAll | type | runCommand =>
    exact absurd trivial hshape
  | leftClick | rightClick | sleep =>
    exact Option.map_eq_none_iff.2 (Option.not_isSome_iff_eq_none.1 hshape)
  | updateSetting =>
    rw [Action.ofOpcode?, Action.update?]
    cases hcut : Text.cutFirst ':' argument.toList with
    | none => rfl
    | some parts =>
      obtain ⟨key, value⟩ := parts
      cases hparse : SettingUpdate.parse (String.ofList key) (String.ofList value) with
      | ok change => exact absurd ⟨key, value, change, hcut, hparse⟩ hshape
      | error fault => simp only [hparse]
  | altTab | tab =>
    obtain ⟨hempty, hword⟩ := not_or.1 hshape
    have hcount : Action.count? argument = none := by
      rw [Action.count?, if_neg hempty, Option.not_isSome_iff_eq_none.1 hword]
      rfl
    simp only [Action.ofOpcode?, hcount, if_neg hempty, Option.map_none]
  | drag => exact absurd rfl hdrag
  | findAndClick | doubleClickImage | findAndRightClick | doubleRightClickImage | waitForImage
  | clickLastInstance =>
    cases hparse : ImageRef.parse argument with
    | ok image => exact absurd ⟨image, hparse⟩ hshape
    | error fault => simp only [Action.ofOpcode?, Action.respond?, hparse]
  | waitForImageWithTimeout =>
    cases hparse : TimedImage.parse argument with
    | ok timed => exact absurd ⟨timed, hparse⟩ hshape
    | error fault => simp only [Action.ofOpcode?, hparse]
  | loop => rfl

/-! ### What is passed over -/

/-- Two sides of a drag of which none is an image and not both are places. -/
def Unpressed (start finish : Option Endpoint) : Prop :=
  (start = none ∨ finish = none) ∧
    ∀ image, start ≠ some (.image image) ∧ finish ≠ some (.image image)

/-- A malformed instruction asks for nothing, or for a drag that has nothing to look for and
nothing to press. -/
theorem ofInstruction_of_malformed {i : Instruction} (hmalformed : Malformed i)
    (hnoticed : ¬Overlooked i) :
    Action.ofInstruction i = .skip ∨
      ∃ start finish, Action.ofInstruction i = .drag start finish ∧ Unpressed start finish := by
  cases hopcode : i.opcode? with
  | none => exact .inl (by rw [Action.ofInstruction, hopcode])
  | some op =>
    have hshape : ¬HasShape i.argument op.shape := by
      intro hshape
      cases hmalformed with
      | unknown hnone => cases hnone.symm.trans hopcode
      | header hheader => exact hnoticed (.header hheader hopcode hshape)
      | argument hopcode' hshape' =>
        cases hopcode'.symm.trans hopcode
        exact hshape' hshape
    simp only [Action.ofInstruction, hopcode]
    by_cases hdrag : op = .drag
    · subst hdrag
      simp only [Action.ofOpcode?, Action.drag?]
      cases hsides : Text.cutFirst ',' i.argument.toList with
      | none => exact .inl rfl
      | some sides =>
        obtain ⟨start, finish⟩ := sides
        refine .inr ⟨Action.endpoint? start, Action.endpoint? finish, rfl, ?_, ?_⟩
        · have hbad : ¬(IsSide start ∧ IsSide finish) := fun hgood ↦
            hshape ⟨start, finish, hsides, hgood⟩
          rwa [endpoint?_eq_none_iff, endpoint?_eq_none_iff, ← not_and_or]
        · have hbad : ¬(IsSide start ∧ IsSide finish) := fun hgood ↦
            hshape ⟨start, finish, hsides, hgood⟩
          have himage : ¬(IsImageSide start ∨ IsImageSide finish) := fun himage ↦
            hnoticed (.side hopcode hsides hbad himage)
          rw [← endpoint?_eq_image_iff, ← endpoint?_eq_image_iff] at himage
          exact fun image ↦ ⟨fun hstart ↦ himage (.inl ⟨image, hstart⟩),
            fun hfinish ↦ himage (.inr ⟨image, hfinish⟩)⟩
    · rw [ofOpcode?_eq_none hshape hdrag]
      exact .inl rfl

theorem perform_unpressed (desk : Desk σ ι) (position : Nat) {start finish : Option Endpoint}
    (hsides : Unpressed start finish) : perform desk position (.drag start finish) = pure () := by
  obtain ⟨hnone, himage⟩ := hsides
  match start, finish with
  | some (.image image), _ => exact absurd rfl (himage image).1
  | _, some (.image image) => exact absurd rfl (himage image).2
  | none, none | none, some (.point _) | some (.point _), none => rfl
  | some (.point _), some (.point _) => simp at hnone

/-- The state in which an instruction is over that has done nothing. -/
def State.passed (depth position : Nat) (i : Instruction) (s : State σ ι) : State σ ι :=
  { s.begin depth position i with
    executed := s.executed + 1
    slept := s.slept + s.session.commandDelay.toNat }

theorem run_step_of_malformed (desk : Desk σ ι) {i : Instruction} (hmalformed : Malformed i)
    (hnoticed : ¬Overlooked i) (depth position : Nat) (s : State σ ι) :
    (step desk depth position i).run s = .ok () (s.passed depth position i) := by
  rcases ofInstruction_of_malformed hmalformed hnoticed with hskip | ⟨start, finish, hdrag, hsides⟩
  · rw [run_step_of_not_call desk hskip nofun]
    rfl
  · rw [run_step_of_not_call desk hdrag nofun, perform_unpressed desk position hsides]
    rfl

/-! ### What is overlooked -/

theorem LoopHeader.ofBody_ne_unclosed (body : List Char) : LoopHeader.ofBody body ≠ .unclosed := by
  unfold LoopHeader.ofBody
  split <;> split <;> nofun

/-- A header that is never closed leaves the bracket as the opcode. -/
theorem opcode?_of_unclosed {segment : List Char}
    (hheader : (Instruction.ofSegment segment).header = some .unclosed) :
    (Instruction.ofSegment segment).opcode? = some .loop := by
  unfold Instruction.ofSegment at hheader ⊢
  split at hheader
  · split at hheader
    · rfl
    · rw [Instruction.header_ofBody] at hheader
      exact absurd (Option.some.inj hheader) (LoopHeader.ofBody_ne_unclosed _)
  · rw [Instruction.header_ofBody] at hheader
    cases hheader

/-- The bracket asks for nothing. -/
theorem not_overlooked_of_unclosed {segment : List Char}
    (hheader : (Instruction.ofSegment segment).header = some .unclosed) :
    ¬Overlooked (Instruction.ofSegment segment) := by
  have hopcode := opcode?_of_unclosed hheader
  intro hoverlooked
  cases hoverlooked with
  | header _ hopcode' hshape =>
    cases hopcode'.symm.trans hopcode
    exact hshape
  | side hopcode' => cases hopcode'.symm.trans hopcode

/-- An instruction with a broken header is performed once, for itself alone, as it would be without
the header. -/
theorem run_of_broken (desk : Desk σ ι) {i : Instruction} {a : Action}
    (hbroken : HasBrokenHeader i) (haction : Action.ofInstruction (bare i) = a)
    (hcall : ∀ name, a ≠ .call name) (depth position : Nat) (rest : Program) (s : State σ ι) :
    (runFrom desk depth position (i :: rest)).run s =
      (do (do perform desk position a; wrapUp); runFrom desk depth (position + 1) rest).run
        (s.begin depth position i) := by
  have hheaded : Action.ofInstruction i = a := haction
  rw [runFrom_cons_of_not_loop desk depth position rest hbroken.2, EStateM.run_bind,
    EStateM.run_bind, run_step_of_not_call desk hheaded hcall]

/-- Of a drag with one bad side the other one is looked for if it is an image; nothing is
pressed. -/
theorem perform_of_image_side (desk : Desk σ ι) (position : Nat) (image : ImageRef) :
    perform desk position (.drag none (some (.image image))) =
        (do let _ ← locate desk position image .forever) ∧
      perform desk position (.drag (some (.image image)) none) =
        (do let _ ← locate desk position image .forever) := by
  constructor <;>
    simp only [perform, drag, endpoint, press, bind_assoc, pure_bind]

/-- A drag whose first side is bad. -/
theorem malformed_of_bad_start {i : Instruction} {start finish : List Char}
    (hopcode : i.opcode? = some .drag)
    (hsides : Text.cutFirst ',' i.argument.toList = some (start, finish))
    (hbad : Action.endpoint? start = none) : Malformed i := by
  refine .argument hopcode ?_
  rintro ⟨start', finish', hsides', hstart, -⟩
  cases hsides'.symm.trans hsides
  exact endpoint?_eq_none_iff.1 hbad hstart

/-- Behind a broken header the place is clicked all the same, and a bad side of a drag does not
keep the other one from being waited for. -/
theorem overlooked_performed :
    (∃ i, Program.parse "[x]l1:2" = [i] ∧ Malformed i ∧
      (execute (blindDesk fun _ ↦ none) (Program.parse "[x]l1:2") .immediate () ()).state.events =
        [.began 0 1 i 16, .injected (.click ⟨1, 2⟩ .left) ⟨true, [.click ⟨1, 2⟩ .left]⟩]) ∧
    ∃ i, Program.parse "dbad,a.png" = [i] ∧ Malformed i ∧
      (execute (blindDesk fun _ ↦ none) (Program.parse "dbad,a.png") .immediate ()
        ()).state.events =
        [.began 0 1 i 16, .located ⟨"a.png", none⟩ .forever (.ok .timedOut)] := by
  constructor
  · refine ⟨⟨some 'l', "1:2", some (.invalid "x")⟩, by cbv, .header ⟨rfl, rfl⟩, ?_⟩
    cbv
  · refine ⟨⟨some 'd', "bad,a.png", none⟩, by cbv, ?_, ?_⟩
    · have hsides : Text.cutFirst ',' "bad,a.png".toList = some ("bad".toList, "a.png".toList) := by
        decide
      exact malformed_of_bad_start (by decide) hsides (by cbv)
    · cbv

/-! ### Whole runs -/

/-- A side without an image is not looked for. -/
theorem SideSought.eq_of_no_image {position : Nat} {side : Option Endpoint} {events : List Event}
    {result : Except Stop (Option Point)} (hside : SideSought position side events result)
    (himage : ∀ image, side ≠ some (.image image)) :
    events = [] ∧ ∃ place?, result = .ok place? ∧ (side = none → place? = none) := by
  cases hside with
  | unreadable => exact ⟨rfl, none, rfl, fun _ ↦ rfl⟩
  | point place => exact ⟨rfl, some place, rfl, nofun⟩
  | image image answer => exact absurd rfl (himage image)

theorem Performs.eq_of_unpressed {desk : Desk σ ι} {session : Session} {depth position : Nat}
    {start finish : Option Endpoint} {block : Effect} (hsides : Unpressed start finish)
    (hblock : Performs desk session depth position (.drag start finish) block) : block = {} := by
  obtain ⟨hnone, himage⟩ := hsides
  have hstart {events : List Event} {result : Except Stop (Option Point)}
      (hside : SideSought position start events result) :=
    hside.eq_of_no_image fun image ↦ (himage image).1
  have hfinish {events : List Event} {result : Except Stop (Option Point)}
      (hside : SideSought position finish events result) :=
    hside.eq_of_no_image fun image ↦ (himage image).2
  cases hblock with
  | inject hoperation => cases hoperation
  | dragUnstarted hside =>
    obtain ⟨-, _, hresult, -⟩ := hstart hside
    cases hresult
  | dragUnfinished _ hside =>
    obtain ⟨-, _, hresult, -⟩ := hfinish hside
    cases hresult
  | drag hside hside' hpressed =>
    obtain ⟨rfl, start?, hstart?, hstartNone⟩ := hstart hside
    obtain ⟨rfl, finish?, hfinish?, hfinishNone⟩ := hfinish hside'
    cases hstart?
    cases hfinish?
    cases hpressed with
    | noStart | noFinish => rfl
    | refused | released =>
      rcases hnone with hnone | hnone
      · cases hstartNone hnone
      · cases hfinishNone hnone

theorem Performs.eq_of_malformed {desk : Desk σ ι} {session : Session} {depth position : Nat}
    {i : Instruction} {block : Effect} (hmalformed : Malformed i) (hnoticed : ¬Overlooked i)
    (hblock : Performs desk session depth position (Action.ofInstruction i) block) :
    block = {} := by
  rcases ofInstruction_of_malformed hmalformed hnoticed with hskip | ⟨start, finish, hdrag, hsides⟩
  · rw [hskip] at hblock
    cases hblock with
    | skip => rfl
    | inject hoperation => cases hoperation
  · rw [hdrag] at hblock
    exact hblock.eq_of_unpressed hsides

/-- What is left of a run begins an instruction, or the run is completed. -/
theorem Transcript.completed_or_begins {desk : Desk σ ι}
    {admitted : Nat → Nat → Instruction → Prop} {session final : Session} {rest : Effect}
    (htranscript : Transcript desk admitted session rest final) :
    rest = {} ∨
      ∃ depth position i cap events, rest.events = .began depth position i cap :: events := by
  cases htranscript with
  | done => exact .inl rfl
  | stopped | acted => exact .inr ⟨_, _, _, _, _, rfl⟩

/-- A malformed instruction that the engine notices is passed over, wherever it stands and whenever
it is run. It calls no collaborator, and the session and the collaborators stay as they are; only
the counter goes on. In a whole run the next instruction is begun right behind it, in the session
that it has found, or the run is completed. -/
theorem execute_malformed (desk : Desk σ ι) {i : Instruction} (hmalformed : Malformed i)
    (hnoticed : ¬Overlooked i) :
    (∀ depth position s, ∃ s', (step desk depth position i).run s = .ok () s' ∧
      s'.events = s.events ++ [.began depth position i s.session.maxCallDepth] ∧
      s'.session = s.session ∧ s'.locator = s.locator ∧ s'.injector = s.injector ∧
      s'.executed = s.executed + 1) ∧
    ∀ program session locator injector before depth position cap after,
      (execute desk program session locator injector).state.events =
        before ++ .began depth position i cap :: after →
      sessionAfter session (before ++ [.began depth position i cap]) =
        sessionAfter session before ∧
      ((after = [] ∧ ∃ executed, (execute desk program session locator injector).ending =
          .ok (.completed executed)) ∨
        ∃ depth' position' i' cap' rest, after = .began depth' position' i' cap' :: rest) := by
  constructor
  · intro depth position s
    exact ⟨_, run_step_of_malformed desk hmalformed hnoticed depth position s,
      State.events_record _ s, rfl, rfl, rfl, rfl⟩
  · intro program session locator injector before depth position cap after hevents
    obtain ⟨effect, htranscript, hlog, hending⟩ :=
      execute_transcribed desk program session locator injector
    obtain ⟨-, -, block, hblock, hrest⟩ := htranscript.block (hlog.symm.trans hevents)
    obtain rfl : block = {} := hblock.eq_of_malformed hmalformed hnoticed
    constructor
    · rw [sessionAfter_append]
      rcases ofInstruction_of_malformed hmalformed hnoticed with hskip | ⟨_, _, hdrag, -⟩
      · simp only [sessionAfter, List.foldl_cons, List.foldl_nil, Event.sessionAfter, hskip]
        rfl
      · simp only [sessionAfter, List.foldl_cons, List.foldl_nil, Event.sessionAfter, hdrag]
        rfl
    · rcases hrest with ⟨stop, hstop, -⟩ | ⟨-, rest, rfl, hstop, hrest⟩
      · cases hstop
      rcases hrest.completed_or_begins with rfl | ⟨depth', position', i', cap', events, hbegins⟩
      · rw [Effect.outcome, hstop] at hending
        exact .inl ⟨rfl, _, hending⟩
      · exact .inr ⟨depth', position', i', cap', events, hbegins⟩

/-- A header that is never closed is passed over. -/
theorem execute_malformed_of_unclosed :
    ∃ i after, (execute (blindDesk fun _ ↦ none) (Program.parse "[3l1:2;e") .immediate ()
        ()).state.events = .began 0 1 i 16 :: after ∧ HasBrokenHeader i ∧
      ∃ depth position j cap rest, after = .began depth position j cap :: rest := by
  have hevents : (execute (blindDesk fun _ ↦ none) (Program.parse "[3l1:2;e") .immediate ()
      ()).state.events =
      [] ++ .began 0 1 (Instruction.ofSegment "[3l1:2".toList) 16 ::
        [.began 0 2 ⟨some 'e', "", none⟩ 16,
          .injected (.text "^\x7bESC\x7d") ⟨true, [.text "^\x7bESC\x7d"]⟩] := by
    cbv
  have hheader : (Instruction.ofSegment "[3l1:2".toList).header = some .unclosed := by cbv
  have hbroken : HasBrokenHeader (Instruction.ofSegment "[3l1:2".toList) := by
    rw [HasBrokenHeader, Instruction.loop?, hheader]
    exact ⟨rfl, rfl⟩
  obtain ⟨-, hnext⟩ := (execute_malformed (blindDesk fun _ ↦ none) (.header hbroken)
    (not_overlooked_of_unclosed hheader)).2 _ _ _ _ _ _ _ _ _ hevents
  rcases hnext with ⟨hafter, -⟩ | hbegins
  · cases hafter
  · exact ⟨_, _, hevents, hbroken, hbegins⟩

end Macropad.Engine
