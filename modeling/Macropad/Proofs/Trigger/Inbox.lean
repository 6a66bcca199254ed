import Macropad.Trigger.Inbox

/-!
# What a directory source takes in when it begins

`takes_own_files` accounts for every file that is there when the watch begins: the files of the
directory itself whose name fits the pattern and whose text decodes are taken in the order of their
names, each sends its request and is gone, and all other files are left. With the receiver open the
intake is a partition of the files that it goes through (`intake_open`), so nothing is lost or sent
twice.

The watch may be recursive, and then a file further down counts when it changes. When the watch
begins it does not count, recursive or not (`left_further_down`).
-/

set_option autoImplicit false

namespace Macropad.Trigger

open Macropad.File

/-- A text that decodes is not blank. -/
theorem Request.allBlank_eq_false_of_parse? {raw : String} {request : Request}
    (hparse : parse? raw = some request) : Text.allBlank raw.toList = false := by
  cases hblank : Text.allBlank raw.toList with
  | false => rfl
  | true =>
    rw [parse?, Text.trim_eq_nil_iff.2 hblank] at hparse
    cases hparse

namespace Inbox

/-- A file of the directory itself whose name fits the pattern, with a text that is not blank and
decodes to the request. -/
structure Takes (inbox : Inbox) (file : String × Contents) (request : Request) : Prop where
  top : isTopLevel file.1 = true
  accepted : inbox.accepts file.1 = true
  decoded : ∃ text, file.2.text? = some text ∧ Text.allBlank text.toList = false ∧
    Request.parse? text = some request

theorem request?_eq_some_iff {inbox : Inbox} {name : String} {contents : Contents}
    {request : Request} :
    inbox.request? name contents = some request ↔
      inbox.accepts name = true ∧ ∃ text, contents.text? = some text ∧
        Text.allBlank text.toList = false ∧ Request.parse? text = some request := by
  rw [request?]
  split
  · rename_i haccepts
    rw [Option.bind_eq_some_iff]
    refine ⟨fun ⟨text, htext, hparse⟩ ↦ ⟨haccepts, text, htext, ?_, hparse⟩,
      fun ⟨_, text, htext, _, hparse⟩ ↦ ⟨text, htext, hparse⟩⟩
    exact Request.allBlank_eq_false_of_parse? hparse
  · rename_i haccepts
    exact ⟨nofun, fun h ↦ absurd h.1 haccepts⟩

theorem takes_iff {inbox : Inbox} {file : String × Contents} {request : Request} :
    inbox.Takes file request ↔
      isTopLevel file.1 = true ∧ inbox.request? file.1 file.2 = some request := by
  rw [request?_eq_some_iff]
  exact ⟨fun h ↦ ⟨h.top, h.accepted, h.decoded⟩, fun h ↦ ⟨h.1, h.2.1, h.2.2⟩⟩

/-! ### The intake -/

/-- The files that are taken, with their requests. -/
def takenOf (inbox : Inbox) (files : List (String × Contents)) :
    List ((String × Contents) × Request) :=
  files.filterMap fun file ↦ (inbox.request? file.1 file.2).map (file, ·)

theorem mem_takenOf {inbox : Inbox} {files : List (String × Contents)}
    {entry : (String × Contents) × Request} :
    entry ∈ inbox.takenOf files ↔
      entry.1 ∈ files ∧ inbox.request? entry.1.1 entry.1.2 = some entry.2 := by
  obtain ⟨file, request⟩ := entry
  simp only [takenOf, List.mem_filterMap, Option.map_eq_some_iff, Prod.mk.injEq]
  constructor
  · rintro ⟨_, hmem, _, hrequest, rfl, rfl⟩
    exact ⟨hmem, hrequest⟩
  · rintro ⟨hmem, hrequest⟩
    exact ⟨file, hmem, request, hrequest, rfl, rfl⟩

/-- An open receiver gets a request from each file that holds one, and the others are left. -/
theorem intake_open (inbox : Inbox) (files : List (String × Contents)) :
    inbox.intake {} files =
      { sent := (inbox.takenOf files).map (·.2)
        left := files.filter fun file ↦ (inbox.request? file.1 file.2).isNone } := by
  induction files with
  | nil => rfl
  | cons file rest ih =>
    obtain ⟨name, contents⟩ := file
    cases hrequest : inbox.request? name contents <;>
      simp [intake, takenOf, hrequest, ih, Receiver.take?]

/-- What is taken and what is left are the files that the intake goes through. -/
theorem takenOf_append_perm (inbox : Inbox) (files : List (String × Contents)) :
    ((inbox.takenOf files).map (·.1) ++
      files.filter fun file ↦ (inbox.request? file.1 file.2).isNone).Perm files := by
  have htaken : (inbox.takenOf files).map (·.1) =
      files.filter fun file ↦ (inbox.request? file.1 file.2).isSome := by
    rw [takenOf, List.map_filterMap, ← List.filterMap_eq_filter]
    refine congrArg (List.filterMap · files) (funext fun file ↦ ?_)
    cases hrequest : inbox.request? file.1 file.2 <;> simp [Option.guard, hrequest]
  rw [htaken]
  simp only [← Option.not_isSome]
  exact List.filter_append_perm _ files

/-! ### Order -/

theorem inOrder_perm (files : List (String × Contents)) : (inOrder files).Perm files :=
  List.mergeSort_perm files _

theorem inOrder_pairwise (files : List (String × Contents)) :
    (inOrder files).Pairwise fun a b ↦ a.1 ≤ b.1 := by
  refine (List.pairwise_mergeSort (fun a b c hab hbc ↦ ?_) (fun a b ↦ ?_) files).imp
    of_decide_eq_true
  · exact decide_eq_true (String.le_trans (of_decide_eq_true hab) (of_decide_eq_true hbc))
  · simpa using String.le_total a.1 b.1

/-- What is taken keeps the order of the files. -/
theorem takenOf_pairwise (inbox : Inbox) {files : List (String × Contents)}
    (horder : files.Pairwise fun a b ↦ a.1 ≤ b.1) :
    (inbox.takenOf files).Pairwise fun a b ↦ a.1.1 ≤ b.1.1 := by
  refine horder.filterMap _ fun a b hab entry hentry other hother ↦ ?_
  obtain ⟨_, -, rfl⟩ := Option.map_eq_some_iff.1 hentry
  obtain ⟨_, -, rfl⟩ := Option.map_eq_some_iff.1 hother
  exact hab

/-! ### The beginning of a watch -/

/-- A file counts when the watch begins if it is one of the directory itself, its name fits the
pattern, and its text is not blank and decodes. The requests sent are those of the files that count,
each once and in the order of the names. These files are gone, and all others are left; this is so
whether the watch is recursive or not. -/
theorem takes_own_files (inbox : Inbox) (folder : Folder) :
    let intake := inbox.watch {} (some folder)
    ∃ taken : List ((String × Contents) × Request),
      intake.sent = taken.map (·.2) ∧
      (taken.map (·.1) ++ intake.left).Perm folder.files ∧
      (∀ entry ∈ taken, inbox.Takes entry.1 entry.2) ∧
      (∀ file ∈ intake.left, ∀ request, ¬ inbox.Takes file request) ∧
      (taken.Pairwise fun a b ↦ a.1.1 ≤ b.1.1) ∧
      (intake.left.Pairwise fun a b ↦ a.1 ≤ b.1) ∧
      intake.ended = false := by
  intro intake
  let isTop (file : String × Contents) : Bool := isTopLevel file.1
  let own := inOrder (folder.files.filter isTop)
  let others := own.filter fun file ↦ (inbox.request? file.1 file.2).isNone
  let deeper := folder.files.filter fun file ↦ !isTop file
  have hintake : intake =
      { sent := (inbox.takenOf own).map (·.2), left := inOrder (others ++ deeper) } := by
    simp only [intake, watch, intake_open]
    rfl
  have hown {file : String × Contents} : file ∈ own ↔ file ∈ folder.files ∧ isTop file = true :=
    (inOrder_perm _).mem_iff.trans List.mem_filter
  refine ⟨inbox.takenOf own, ?_⟩
  rw [hintake]
  refine ⟨rfl, ?_, fun entry hentry ↦ ?_, fun file hfile request htakes ↦ ?_,
    takenOf_pairwise inbox (inOrder_pairwise _), inOrder_pairwise _, rfl⟩
  · calc
      ((inbox.takenOf own).map (·.1) ++ inOrder (others ++ deeper)).Perm
          ((inbox.takenOf own).map (·.1) ++ (others ++ deeper)) := (inOrder_perm _).append_left _
      _ = (inbox.takenOf own).map (·.1) ++ others ++ deeper := (List.append_assoc ..).symm
      List.Perm _ (own ++ deeper) := (inbox.takenOf_append_perm own).append_right _
      List.Perm _ (folder.files.filter isTop ++ deeper) := (inOrder_perm _).append_right _
      List.Perm _ folder.files := List.filter_append_perm isTop folder.files
  · obtain ⟨hmem, hrequest⟩ := mem_takenOf.1 hentry
    exact takes_iff.2 ⟨(hown.1 hmem).2, hrequest⟩
  · obtain ⟨htop, hrequest⟩ := takes_iff.1 htakes
    rcases List.mem_append.1 ((inOrder_perm _).mem_iff.1 hfile) with hother | hdeeper
    · have hnone := (List.mem_filter.1 hother).2
      rw [hrequest] at hnone
      cases hnone
    · have hnot := (List.mem_filter.1 hdeeper).2
      simp only [isTop, htop] at hnot
      cases hnot

/-- A file further down is left by a recursive watch too. -/
theorem left_further_down :
    (Inbox.mk none true).watch {} (some ⟨[("sub/a", .text "open"), ("b", .text "go")]⟩) =
      { sent := [.command "go"], left := [("sub/a", .text "open")] } := by
  decide +kernel

end Inbox

end Macropad.Trigger
