import NexusWorkflow.Lib.Indexed
import NexusWorkflow.Model.Receipts

/-!
# Receipts are never lost

In every run in which a file is written only under a name that no one else has in hand, and no
transaction is committed without its upload hearing of it, the stored path names a file with the
content of the upload that has set it, and that upload has not failed.
-/

namespace NexusWorkflow.Receipts

open Machine (Outcome)

variable {s s' : Archive} {c : Nat} {u : Upload} {phase : Phase} {filename : Filename}

/-! ## What is promised -/

/-- The upload is answered with an error, or will be. -/
def Phase.fails : Phase → Bool
  | .removing _ | .failed => true
  | _ => false

structure Stored (s : Archive) : Prop where
  receipt : ∀ filename, s.receiptPath = some filename → ∃ c u, s.setBy = some c ∧
    s.uploads[c]? = some u ∧
    u.phase.fails = false ∧ s.files.get? filename = some ⟨filename, .whole u.buffer⟩

/-- The stored path and its file are as they were. -/
def Undisturbed (s s' : Archive) : Prop :=
  s'.receiptPath = s.receiptPath ∧
    ∀ filename, s.receiptPath = some filename → s'.files.get? filename = s.files.get? filename

/-- The old file that the upload will delete. -/
def Phase.old : Phase → Option Filename
  | .preparing old | .makingDir old _ | .writing old _ | .committing old _ => old
  | .discarding old => some old
  | _ => none

/-- The new file that the upload has written. -/
def Phase.own : Phase → Option Filename
  | .committing _ filename | .removing filename => some filename
  | _ => none

/-- A file is written under a name that is in no one's hands, and a commit is answered. -/
def Safe (s : Archive) : Happening → Prop
  | .go c outcome => ∀ u ∈ s.uploads[c]?,
    match u.phase, outcome with
    | .writing _ filename, .ok | .writing _ filename, .lost =>
      s.receiptPath ≠ some filename ∧
        ∀ u' ∈ s.uploads, u'.phase.old ≠ some filename ∧ u'.phase.own ≠ some filename
    | .committing _ _, .lost => False
    | _, _ => True
  | .upload _ _ | .clock _ => True

instance decidableSafe (s : Archive) : (h : Happening) → Decidable (Safe s h)
  | .go c outcome => by
    unfold Safe
    refine @Option.decidableForallMem _ _ (fun u => ?_) _
    split <;> infer_instance
  | .upload _ _ | .clock _ => isTrue trivial

/-! ## The invariant -/

structure Kept (s : Archive) : Prop where
  receipt : ∀ filename, s.receiptPath = some filename → ∃ c u, s.setBy = some c ∧
    s.uploads[c]? = some u ∧
    ((∃ old, u.phase = .discarding old) ∨ u.phase = .done) ∧
      s.files.get? filename = some ⟨filename, .whole u.buffer⟩
  written : ∀ u ∈ s.uploads, ∀ old filename, u.phase = .committing old filename →
    s.files.get? filename = some ⟨filename, .whole u.buffer⟩
  own_path : ∀ u ∈ s.uploads, ∀ filename, u.phase.own = some filename →
    s.receiptPath ≠ some filename
  own_unique : ∀ (c c' : Nat) (u u' : Upload) (filename : Filename), s.uploads[c]? = some u →
    s.uploads[c']? = some u' →
    u.phase.own = some filename → u'.phase.own = some filename → c = c'
  own_old : ∀ u ∈ s.uploads, ∀ u' ∈ s.uploads, ∀ filename, u.phase.own = some filename →
    u'.phase.old ≠ some filename
  discarding : ∀ u ∈ s.uploads, ∀ old, u.phase = .discarding old → s.receiptPath ≠ some old

/-! ## What a call can do -/

/-- The upload goes on without having written a file or committed. -/
structure Quiet (s : Archive) (u : Upload) (phase : Phase) : Prop where
  old : ∀ filename, phase.old = some filename → u.phase.old = some filename ∨
    s.receiptPath = some filename
  own : ∀ filename, phase.own = some filename → u.phase.own = some filename
  writes : ∀ old filename, phase ≠ .committing old filename
  commits : ∀ old, phase ≠ .discarding old
  finished : ((∃ old, u.phase = .discarding old) ∨ u.phase = .done) → phase = .done

theorem go_cases {outcome : Outcome} (h : s.go c u outcome = some s') :
    (∃ phase, Quiet s u phase ∧ s' = s.goOn c u phase) ∨
    (∃ old filename, u.phase = .writing old filename ∧
      (outcome = .ok ∧ s' = (s.writeFile filename (.whole u.buffer)).goOn c u
      (.committing old filename) ∨
        outcome = .lost ∧ s' = (s.writeFile filename .torn).goOn c u .failed)) ∨
    (∃ old filename, u.phase = .committing old filename ∧
      (outcome = .lost ∧ s' = (s.commit c filename).goOn c u (.removing filename) ∨
        outcome = .ok ∧ ∃ phase, (phase = .done ∨ ∃ filename', old = some filename' ∧
          phase = .discarding filename') ∧
          s' = (s.commit c filename).goOn c u phase)) ∨
    ∃ filename, (u.phase = .discarding filename ∧ s' = (s.unlink filename).goOn c u .done) ∨
      (u.phase = .removing filename ∧ s' = (s.unlink filename).goOn c u .failed) := by
  unfold Archive.go at h
  split at h
  case h_1 hphase =>
    cases h
    exact .inl ⟨_, by constructor <;> simp +contextual [hphase, Phase.old, Phase.own], rfl⟩
  case h_2 hphase =>
    cases h
    exact .inl ⟨_, by constructor <;> simp +contextual [hphase, Phase.old, Phase.own], rfl⟩
  case h_3 hphase =>
    cases h
    exact .inl ⟨_, by constructor <;> simp +contextual [hphase, Phase.old, Phase.own], rfl⟩
  case h_4 old filename hphase =>
    cases h
    exact .inr (.inl ⟨old, filename, hphase, .inl ⟨rfl, rfl⟩⟩)
  case h_5 old filename hphase =>
    cases h
    exact .inr (.inl ⟨old, filename, hphase, .inr ⟨rfl, rfl⟩⟩)
  case h_6 old filename hphase =>
    cases h
    exact .inr (.inr (.inl ⟨_, filename, hphase, .inr ⟨rfl, _, .inr ⟨old, rfl, rfl⟩, rfl⟩⟩))
  case h_7 filename hphase =>
    cases h
    exact .inr (.inr (.inl ⟨_, filename, hphase, .inr ⟨rfl, _, .inl rfl, rfl⟩⟩))
  case h_8 old filename hphase =>
    cases h
    exact .inr (.inr (.inl ⟨old, filename, hphase, .inl ⟨rfl, rfl⟩⟩))
  case h_9 old filename hphase =>
    cases h
    exact .inl ⟨_, by constructor <;> simp +contextual [hphase, Phase.old, Phase.own], rfl⟩
  case h_10 hphase =>
    cases h
    exact .inl ⟨_, by constructor <;> simp +contextual [hphase, Phase.old, Phase.own], rfl⟩
  case h_11 old hphase _ =>
    cases h
    exact .inr (.inr (.inr ⟨old, .inl ⟨hphase, rfl⟩⟩))
  case h_12 hphase =>
    cases h
    exact .inl ⟨_, by constructor <;> simp +contextual [hphase, Phase.old, Phase.own], rfl⟩
  case h_13 filename hphase _ =>
    cases h
    exact .inr (.inr (.inr ⟨filename, .inr ⟨hphase, rfl⟩⟩))
  case h_14 => cases h
  case h_15 => cases h
  case h_16 hdiscards _ hdone _ _ _ _ _ _ _ _ _ _ _ _ =>
    cases h
    have hover : ¬ ((∃ old, u.phase = .discarding old) ∨ u.phase = .done) := fun hover =>
      hover.elim (fun ⟨old, hphase⟩ => hdiscards old hphase) hdone
    exact .inl ⟨_, ⟨by simp [Phase.old], by simp [Phase.own], by simp, by simp, fun h =>
      absurd h hover⟩, rfl⟩

namespace Kept

/-! ## Files -/

/-- A file is written or deleted that is neither the stored one nor that of an upload that may still
commit. -/
theorem change (h : Kept s) {files : KeyedMap File.name} (hfree : s.receiptPath ≠ some filename)
    (hown : ∀ u ∈ s.uploads, ∀ old, u.phase ≠ .committing old filename)
    (hothers : ∀ filename', filename' ≠ filename → files.get? filename' = s.files.get? filename') :
    Kept { s with files } := by
  refine ⟨fun filename' hpath => ?_, fun u hu old filename' hphase => ?_, h.own_path, h.own_unique,
    h.own_old,
    h.discarding⟩
  · obtain ⟨c, u, hset, hu, hphase, hfile⟩ := h.receipt filename' hpath
    have hne : filename' ≠ filename := by
      rintro rfl
      exact hfree hpath
    exact ⟨c, u, hset, hu, hphase, (hothers filename' hne).trans hfile⟩
  · have hne : filename' ≠ filename := by
      rintro rfl
      exact hown u hu old hphase
    exact (hothers filename' hne).trans (h.written u hu old filename' hphase)

theorem writeFile (h : Kept s) {content : Content} (hfree : s.receiptPath ≠ some filename)
    (hown : ∀ u ∈ s.uploads, u.phase.own ≠ some filename) :
    Kept (s.writeFile filename content) := by
  refine h.change hfree (fun u hu old hphase => ?_) fun filename' hne => ?_
  · apply hown u hu
    rw [hphase]
    rfl
  · exact KeyedMap.get?_set_of_ne _ (Ne.symm hne)

theorem unlink (h : Kept s) (hfree : s.receiptPath ≠ some filename)
    (hown : ∀ u ∈ s.uploads, ∀ old, u.phase ≠ .committing old filename) :
    Kept (s.unlink filename) :=
  h.change hfree hown fun _ hne => KeyedMap.get?_erase_of_ne _ (Ne.symm hne)

/-! ## Uploads -/

theorem goOn (h : Kept s) (hu : s.uploads[c]? = some u) (hquiet : Quiet s u phase) :
    Kept (s.goOn c u phase) := by
  obtain ⟨hold, hown, hnew, hkeep, hset⟩ := hquiet
  have hmem := List.mem_of_getElem? hu
  have hlt := (List.getElem?_eq_some_iff.1 hu).1
  refine ⟨fun filename hpath => ?_, fun u' hu' old filename hphase => ?_,
    fun u' hu' filename hphase => ?_,
    fun c₁ c₂ u₁ u₂ filename h₁ h₂ ho₁ ho₂ => ?_, fun u₁ h₁ u₂ h₂ filename ho₁ ho₂ =>
      ?_, fun u' hu' old hphase => ?_⟩
  · obtain ⟨c', u', hsetBy, hu', hphase, hfile⟩ := h.receipt filename hpath
    by_cases hc : c' = c
    · subst hc
      rw [hu] at hu'
      cases hu'
      exact ⟨c', _, hsetBy, List.getElem?_set_self hlt, .inr (hset hphase), hfile⟩
    · exact ⟨c', u', hsetBy, (List.getElem?_set_ne (Ne.symm hc)).trans hu', hphase, hfile⟩
  · rcases List.mem_or_eq_of_mem_set hu' with hu' | rfl
    · exact h.written u' hu' old filename hphase
    · exact absurd hphase (hnew old filename)
  · rcases List.mem_or_eq_of_mem_set hu' with hu' | rfl
    · exact h.own_path u' hu' filename hphase
    · exact h.own_path u hmem filename (hown filename hphase)
  · -- whatever an upload holds now it has held before
    have hbefore : ∀ (c' : Nat) (u' : Upload), (s.goOn c u phase).uploads[c']? = some u' →
        u'.phase.own = some filename →
        ∃ u'', s.uploads[c']? = some u'' ∧ u''.phase.own = some filename := fun c' u' hu' ho => by
      rcases Indexed.getElem?_set hu' with ⟨rfl, rfl⟩ | ⟨-, hu'⟩
      · exact ⟨u, hu, hown filename ho⟩
      · exact ⟨u', hu', ho⟩
    obtain ⟨u₁', h₁', ho₁'⟩ := hbefore c₁ u₁ h₁ ho₁
    obtain ⟨u₂', h₂', ho₂'⟩ := hbefore c₂ u₂ h₂ ho₂
    exact h.own_unique c₁ c₂ u₁' u₂' filename h₁' h₂' ho₁' ho₂'
  · have hbefore : ∃ u₁' ∈ s.uploads, u₁'.phase.own = some filename := by
      rcases List.mem_or_eq_of_mem_set h₁ with h₁ | rfl
      · exact ⟨u₁, h₁, ho₁⟩
      · exact ⟨u, hmem, hown filename ho₁⟩
    obtain ⟨u₁', h₁', ho₁'⟩ := hbefore
    rcases List.mem_or_eq_of_mem_set h₂ with h₂ | rfl
    · exact h.own_old u₁' h₁' u₂ h₂ filename ho₁' ho₂
    · rcases hold filename ho₂ with ho | hpath
      · exact h.own_old u₁' h₁' u hmem filename ho₁' ho
      · exact h.own_path u₁' h₁' filename ho₁' hpath
  · rcases List.mem_or_eq_of_mem_set hu' with hu' | rfl
    · exact h.discarding u' hu' old hphase
    · exact absurd hphase (hkeep old)

theorem written_now (h : Kept s) (hu : s.uploads[c]? = some u) {old : Option Filename}
    (hphase : u.phase = .writing old filename) (hfree : s.receiptPath ≠ some filename)
    (hothers : ∀ u' ∈ s.uploads, u'.phase.old ≠ some filename ∧ u'.phase.own ≠ some filename) :
    Kept ((s.writeFile filename (.whole u.buffer)).goOn c u (.committing old filename)) := by
  have hmem := List.mem_of_getElem? hu
  have hk : Kept (s.writeFile filename (.whole u.buffer)) := h.writeFile hfree fun u' hu' =>
      (hothers u' hu').2
  have hown : (Phase.committing old filename).own = some filename := rfl
  refine ⟨fun filename' hpath => ?_, fun u' hu' old' filename' hphase' => ?_,
    fun u' hu' filename' hphase' => ?_,
    fun c₁ c₂ u₁ u₂ filename' h₁ h₂ ho₁ ho₂ => ?_, fun u₁ h₁ u₂ h₂ filename' ho₁ ho₂ =>
      ?_, fun u' hu' old' hphase' => ?_⟩
  · obtain ⟨c', u', hset, hu', hphase', hfile⟩ := hk.receipt filename' hpath
    have hne : c ≠ c' := by
      rintro rfl
      rw [show s.uploads[c]? = some u' from hu'] at hu
      cases hu
      rw [hphase] at hphase'
      simp at hphase'
    exact ⟨c', u', hset, (List.getElem?_set_ne hne).trans hu', hphase', hfile⟩
  · rcases List.mem_or_eq_of_mem_set hu' with hu' | rfl
    · exact hk.written u' hu' old' filename' hphase'
    · cases hphase'
      exact KeyedMap.get?_set_self s.files ⟨filename, .whole u.buffer⟩
  · rcases List.mem_or_eq_of_mem_set hu' with hu' | rfl
    · exact hk.own_path u' hu' filename' hphase'
    · cases hown.symm.trans hphase'
      exact hfree
  · -- no other upload has written a file of this name
    rcases Indexed.getElem?_set h₁ with ⟨hc₁, rfl⟩ | ⟨-, h₁⟩ <;>
      rcases Indexed.getElem?_set h₂ with ⟨hc₂, rfl⟩ | ⟨-, h₂⟩
    · exact hc₁.trans hc₂.symm
    · cases hown.symm.trans ho₁
      exact absurd ho₂ (hothers u₂ (List.mem_of_getElem? h₂)).2
    · cases hown.symm.trans ho₂
      exact absurd ho₁ (hothers u₁ (List.mem_of_getElem? h₁)).2
    · exact hk.own_unique c₁ c₂ u₁ u₂ filename' h₁ h₂ ho₁ ho₂
  · have hold : ∃ u₂' ∈ s.uploads, u₂'.phase.old = some filename' := by
      rcases List.mem_or_eq_of_mem_set h₂ with h₂ | rfl
      · exact ⟨u₂, h₂, ho₂⟩
      · refine ⟨u, hmem, ?_⟩
        rw [hphase]
        exact ho₂
    obtain ⟨u₂', h₂', ho₂'⟩ := hold
    rcases List.mem_or_eq_of_mem_set h₁ with h₁ | rfl
    · exact hk.own_old u₁ h₁ u₂' h₂' filename' ho₁ ho₂'
    · cases hown.symm.trans ho₁
      exact (hothers u₂' h₂').1 ho₂'
  · rcases List.mem_or_eq_of_mem_set hu' with hu' | rfl
    · exact hk.discarding u' hu' old' hphase'
    · cases hphase'

/-- The file that the upload has written is the stored one now, and it will delete the old one at
most. -/
theorem committed (h : Kept s) (hu : s.uploads[c]? = some u) {old : Option Filename}
    (hphase : u.phase = .committing old filename)
    (hnext : phase = .done ∨ ∃ filename', old = some filename' ∧ phase = .discarding filename') :
    Kept ((s.commit c filename).goOn c u phase) := by
  have hmem := List.mem_of_getElem? hu
  have hlt := (List.getElem?_eq_some_iff.1 hu).1
  have hown : u.phase.own = some filename := by
    rw [hphase]
    rfl
  have hnone : phase.own = none := by
    rcases hnext with rfl | ⟨_, _, rfl⟩ <;> rfl
  have hold : ∀ filename', phase.old = some filename' → u.phase.old = some filename' :=
      fun filename' ho => by
    rw [hphase]
    rcases hnext with rfl | ⟨_, rfl, rfl⟩
    · cases ho
    · exact ho
  refine ⟨fun filename' hpath => ?_, fun u' hu' old' filename' hphase' => ?_,
    fun u' hu' filename' hphase' hpath => ?_,
    fun c₁ c₂ u₁ u₂ filename' h₁ h₂ ho₁ ho₂ => ?_, fun u₁ h₁ u₂ h₂ filename' ho₁ ho₂ => ?_,
    fun u' hu' old' hphase' hpath => ?_⟩
  · cases hpath
    refine ⟨c, _, rfl, List.getElem?_set_self hlt, ?_, h.written u hmem old filename hphase⟩
    exact hnext.symm.imp_left fun ⟨filename', _, hphase'⟩ => ⟨filename', hphase'⟩
  · rcases List.mem_or_eq_of_mem_set hu' with hu' | rfl
    · exact h.written u' hu' old' filename' hphase'
    · rcases hnext with rfl | ⟨_, _, rfl⟩ <;> cases hphase'
  · cases hpath
    obtain ⟨c', hc'⟩ := List.mem_iff_getElem?.1 hu'
    rcases Indexed.getElem?_set hc' with ⟨rfl, rfl⟩ | ⟨hne, hc'⟩
    · cases hnone.symm.trans hphase'
    · exact hne (h.own_unique c' c u' u filename hc' hu hphase' hown)
  · rcases Indexed.getElem?_set h₁ with ⟨rfl, rfl⟩ | ⟨-, h₁⟩
    · cases hnone.symm.trans ho₁
    · rcases Indexed.getElem?_set h₂ with ⟨rfl, rfl⟩ | ⟨-, h₂⟩
      · cases hnone.symm.trans ho₂
      · exact h.own_unique c₁ c₂ u₁ u₂ filename' h₁ h₂ ho₁ ho₂
  · rcases List.mem_or_eq_of_mem_set h₁ with h₁ | rfl
    · rcases List.mem_or_eq_of_mem_set h₂ with h₂ | rfl
      · exact h.own_old u₁ h₁ u₂ h₂ filename' ho₁ ho₂
      · exact h.own_old u₁ h₁ u hmem filename' ho₁ (hold filename' ho₂)
    · cases hnone.symm.trans ho₁
  · cases hpath
    have hdiscards : ∃ u₂ ∈ s.uploads, u₂.phase.old = some filename := by
      rcases List.mem_or_eq_of_mem_set hu' with hu' | rfl
      · refine ⟨u', hu', ?_⟩
        rw [hphase']
        rfl
      · refine ⟨u, hmem, hold filename ?_⟩
        rw [show phase = .discarding filename from hphase']
        rfl
    obtain ⟨u₂, h₂, ho₂⟩ := hdiscards
    exact h.own_old u hmem u₂ h₂ filename hown ho₂

/-! ## Runs -/

theorem go (h : Kept s) (hu : s.uploads[c]? = some u) {outcome : Outcome}
    (hsafe : Safe s (.go c outcome)) (hgo : s.go c u outcome = some s') : Kept s' := by
  have hmem := List.mem_of_getElem? hu
  have hcond := hsafe u hu
  rcases go_cases hgo with ⟨phase, hquiet, rfl⟩ | ⟨old, filename, hphase, hwrites⟩ |
    ⟨old, filename, hphase, hcommits⟩ | ⟨filename, ⟨hphase, rfl⟩ | ⟨hphase, rfl⟩⟩
  · exact h.goOn hu hquiet
  · rcases hwrites with ⟨rfl, rfl⟩ | ⟨rfl, rfl⟩
    · simp only [hphase] at hcond
      exact h.written_now hu hphase hcond.1 hcond.2
    · simp only [hphase] at hcond
      refine (h.writeFile hcond.1 fun u' hu' => (hcond.2 u' hu').2).goOn hu ?_
      constructor <;> simp [hphase, Phase.old, Phase.own]
  · rcases hcommits with ⟨rfl, -⟩ | ⟨rfl, phase, hnext, rfl⟩
    · simp [hphase] at hcond
    · exact h.committed hu hphase hnext
  · have hold : u.phase.old = some filename := by
      rw [hphase]
      rfl
    refine (h.unlink (h.discarding u hmem filename hphase) fun u' hu' old hphase' => ?_).goOn hu ?_
    · exact h.own_old u' hu' u hmem filename (by rw [hphase']; rfl) hold
    · constructor <;> simp [hphase, Phase.old, Phase.own]
  · have hown : u.phase.own = some filename := by
      rw [hphase]
      rfl
    refine (h.unlink (h.own_path u hmem filename hown) fun u' hu' old hphase' => ?_).goOn hu ?_
    · -- it would be the upload itself
      obtain ⟨c', hc'⟩ := List.mem_iff_getElem?.1 hu'
      have hsame := h.own_unique c c' u u' filename hu hc' hown (by rw [hphase']; rfl)
      rw [← hsame, hu] at hc'
      cases hc'
      rw [hphase] at hphase'
      cases hphase'
    · constructor <;> simp [hphase, Phase.old, Phase.own]

theorem upload (h : Kept s) (buffer : String) (ext : Ext) :
    Kept { s with uploads := s.uploads ++ [{ buffer, ext }] } := by
  have hmem : ∀ u ∈ s.uploads ++ [({ buffer, ext } : Upload)], u ∈ s.uploads ∨ u.phase = .reading :=
      fun u hu => by
    rcases List.mem_append.1 hu with hu | hu
    · exact .inl hu
    · rw [List.mem_singleton.1 hu]
      exact .inr rfl
  refine ⟨fun filename hpath => ?_, fun u hu old filename hphase => ?_,
    fun u hu filename hphase => ?_,
    fun c₁ c₂ u₁ u₂ filename h₁ h₂ ho₁ ho₂ => ?_, fun u₁ h₁ u₂ h₂ filename ho₁ ho₂ =>
      ?_, fun u hu old hphase => ?_⟩
  · obtain ⟨c, u, hset, hu, hrest⟩ := h.receipt filename hpath
    exact ⟨c, u, hset, (List.getElem?_append_left (List.getElem?_eq_some_iff.1 hu).1).trans hu,
      hrest⟩
  · rcases hmem u hu with hu | hreading
    · exact h.written u hu old filename hphase
    · cases hreading.symm.trans hphase
  · rcases hmem u hu with hu | hreading
    · exact h.own_path u hu filename hphase
    · rw [hreading] at hphase
      cases hphase
  · rcases Indexed.getElem?_append_singleton h₁ with h₁ | ⟨-, rfl⟩
    · rcases Indexed.getElem?_append_singleton h₂ with h₂ | ⟨-, rfl⟩
      · exact h.own_unique c₁ c₂ u₁ u₂ filename h₁ h₂ ho₁ ho₂
      · cases ho₂
    · cases ho₁
  · rcases hmem u₁ h₁ with h₁ | hreading
    · rcases hmem u₂ h₂ with h₂ | hreading
      · exact h.own_old u₁ h₁ u₂ h₂ filename ho₁ ho₂
      · rw [hreading] at ho₂
        cases ho₂
    · rw [hreading] at ho₁
      cases ho₁
  · rcases hmem u hu with hu | hreading
    · exact h.discarding u hu old hphase
    · cases hreading.symm.trans hphase

theorem step (h : Kept s) {happening : Happening} (hsafe : Safe s happening)
    (hstep : s.step happening = some s') : Kept s' := by
  cases happening with
  | upload buffer ext =>
    cases hstep
    exact h.upload buffer ext
  | go c outcome =>
    obtain ⟨u, hu, hgo⟩ := Option.bind_eq_some_iff.1 hstep
    exact h.go hu hsafe hgo
  | clock now =>
    cases hstep
    exact ⟨h.receipt, h.written, h.own_path, h.own_unique, h.own_old, h.discarding⟩

theorem stored (h : Kept s) : Stored s := by
  refine ⟨fun filename hpath => ?_⟩
  obtain ⟨c, u, hset, hu, hphase, hfile⟩ := h.receipt filename hpath
  refine ⟨c, u, hset, hu, ?_, hfile⟩
  rcases hphase with ⟨old, hphase⟩ | hphase
  · rw [hphase]
    rfl
  · rw [hphase]
    rfl

end Kept

theorem kept_start : Kept {} := by
  constructor <;> simp

/-! ## An upload that has committed does not fail -/

def Phase.committed : Phase → Bool
  | .discarding _ | .done => true
  | _ => false

theorem Phase.committed_iff : phase.committed = true ↔ (∃ old, phase = .discarding old) ∨
    phase = .done := by
  cases phase <;> simp [Phase.committed]

theorem fails_of_committed (h : phase.committed = true) : phase.fails = false := by
  cases phase <;> simp [Phase.committed, Phase.fails] at h ⊢

theorem uploads_go {outcome : Outcome} (h : s.go c u outcome = some s') :
    ∃ phase, s'.uploads = s.uploads.set c { u with phase } ∧
      (u.phase.committed = true → phase.committed = true) := by
  rcases go_cases h with ⟨phase, hquiet, rfl⟩ | ⟨old, filename, hphase, ⟨-, rfl⟩ | ⟨-, rfl⟩⟩ |
    ⟨old, filename, hphase, hcommits⟩ | ⟨filename, ⟨hphase, rfl⟩ | ⟨hphase, rfl⟩⟩
  · refine ⟨phase, rfl, fun hcommitted => ?_⟩
    rw [hquiet.finished (Phase.committed_iff.1 hcommitted)]
    rfl
  · exact ⟨_, rfl, by simp [hphase, Phase.committed]⟩
  · exact ⟨_, rfl, by simp [hphase, Phase.committed]⟩
  · rcases hcommits with ⟨-, rfl⟩ | ⟨-, phase, -, rfl⟩ <;>
      exact ⟨_, rfl, by simp [hphase, Phase.committed]⟩
  · exact ⟨_, rfl, fun _ => rfl⟩
  · exact ⟨_, rfl, by simp [hphase, Phase.committed]⟩

theorem committed_step (hu : s.uploads[c]? = some u) (hcommitted : u.phase.committed = true)
    {happening : Happening} (hstep : s.step happening = some s') :
    ∃ u', s'.uploads[c]? = some u' ∧ u'.phase.committed = true := by
  have hlt := (List.getElem?_eq_some_iff.1 hu).1
  cases happening with
  | upload buffer ext =>
    cases hstep
    exact ⟨u, (List.getElem?_append_left hlt).trans hu, hcommitted⟩
  | go c' outcome =>
    obtain ⟨u', hu', hgo⟩ := Option.bind_eq_some_iff.1 hstep
    obtain ⟨phase, huploads, hkeeps⟩ := uploads_go hgo
    by_cases hc : c' = c
    · subst hc
      cases hu'.symm.trans hu
      refine ⟨{ u with phase }, ?_, hkeeps hcommitted⟩
      rw [huploads, List.getElem?_set_self hlt]
    · refine ⟨u, ?_, hcommitted⟩
      rw [huploads, List.getElem?_set_ne hc, hu]
  | clock now =>
    cases hstep
    exact ⟨u, hu, hcommitted⟩

/-! ## The claim -/

/-- Only the commit of an upload disturbs the stored path and its file. -/
theorem undisturbed_or_commit (h : Kept s) {happening : Happening} (hsafe : Safe s happening)
    (hstep : s.step happening = some s') : Undisturbed s s' ∨
      ∃ c u, happening = .go c .ok ∧ s'.uploads[c]? = some u ∧ u.phase.committed = true := by
  cases happening with
  | upload buffer ext =>
    cases hstep
    exact .inl ⟨rfl, fun _ _ => rfl⟩
  | clock now =>
    cases hstep
    exact .inl ⟨rfl, fun _ _ => rfl⟩
  | go c outcome =>
    obtain ⟨u, hu, hgo⟩ := Option.bind_eq_some_iff.1 hstep
    have hmem := List.mem_of_getElem? hu
    have hcond := hsafe u hu
    rcases go_cases hgo with ⟨phase, -, rfl⟩ | ⟨old, filename, hphase, hwrites⟩ |
      ⟨old, filename, hphase, hcommits⟩ | ⟨filename, ⟨hphase, rfl⟩ | ⟨hphase, rfl⟩⟩
    · exact .inl ⟨rfl, fun _ _ => rfl⟩
    · refine .inl ?_
      have hfree : s.receiptPath ≠ some filename := by
        rcases hwrites with ⟨rfl, -⟩ | ⟨rfl, -⟩
        · simp only [hphase] at hcond
          exact hcond.1
        · simp only [hphase] at hcond
          exact hcond.1
      have hother : ∀ filename', s.receiptPath = some filename' → filename ≠ filename' :=
          fun filename' hpath heq =>
        hfree (heq ▸ hpath)
      rcases hwrites with ⟨-, rfl⟩ | ⟨-, rfl⟩
      · exact ⟨rfl, fun filename' hpath => KeyedMap.get?_set_of_ne _ (hother filename' hpath)⟩
      · exact ⟨rfl, fun filename' hpath => KeyedMap.get?_set_of_ne _ (hother filename' hpath)⟩
    · rcases hcommits with ⟨rfl, -⟩ | ⟨rfl, phase, hnext, rfl⟩
      · simp [hphase] at hcond
      · refine .inr ⟨c, _, rfl, List.getElem?_set_self (List.getElem?_eq_some_iff.1 hu).1, ?_⟩
        rcases hnext with rfl | ⟨_, _, rfl⟩ <;> rfl
    · have hfree := h.discarding u hmem filename hphase
      exact .inl ⟨rfl, fun filename' hpath => KeyedMap.get?_erase_of_ne _ fun heq =>
        hfree (heq ▸ hpath)⟩
    · have hfree := h.own_path u hmem filename (by rw [hphase]; rfl)
      exact .inl ⟨rfl, fun filename' hpath => KeyedMap.get?_erase_of_ne _ fun heq =>
        hfree (heq ▸ hpath)⟩

/-- The stored path names the file of an upload that has not failed, and only an upload that never
fails disturbs it. -/
theorem receipts_kept (h : Machine.Reaches Archive.step Safe {} s) :
    Stored s ∧ ∀ happening s', Safe s happening → s.step happening = some s' → Undisturbed s s' ∨
      ∃ c, happening = .go c .ok ∧ ∀ s'', Machine.Reaches Archive.step Safe s' s'' →
        ∃ u, s''.uploads[c]? = some u ∧ u.phase.fails = false := by
  have hkept : Kept s := h.keeps kept_start fun h hsafe hstep => h.step hsafe hstep
  refine ⟨hkept.stored, fun happening s' hsafe hstep => ?_⟩
  refine (undisturbed_or_commit hkept hsafe hstep).imp_right fun ⟨c, u, hgo, hu, hcommitted⟩ =>
    ⟨c, hgo, fun s'' hrun => ?_⟩
  obtain ⟨u', hu', hcommitted'⟩ :=
    hrun.keeps (I := fun s => ∃ u, s.uploads[c]? = some u ∧ u.phase.committed = true)
    ⟨u, hu, hcommitted⟩ fun ⟨u, hu, hcommitted⟩ _ hstep => committed_step hu hcommitted hstep
  exact ⟨u', hu', fails_of_committed hcommitted'⟩

/-- Two uploads one after the other; the transaction of a third one fails. -/
theorem receipts_kept_run :
    ∃ s : Archive, (s.receiptPath = some ⟨2, .png⟩ ∧ s.files.values.length = 1) ∧ Stored s := by
  have hrun : (Machine.runs Archive.step Safe
      [.clock 1, .upload "a" .jpg, .go 0 .ok, .go 0 .ok, .go 0 .ok, .go 0 .ok, .go 0 .ok,
        .clock 2, .upload "b" .png, .upload "c" .png, .go 1 .ok, .go 2 .ok, .go 1 .ok, .clock 3,
          .go 2 .ok, .go 2 .ok,
        .go 1 .ok, .go 2 .ok, .go 1 .ok, .go 1 .ok, .go 1 .ok, .go 2 .failed, .go 2 .ok] {}).any
      (fun s => s.receiptPath = some ⟨2, .png⟩ ∧ s.files.values.length = 1) = true := by
    decide +kernel
  obtain ⟨s, hruns, hs⟩ := (Option.any_eq_true ..).1 hrun
  exact ⟨s, of_decide_eq_true hs, (receipts_kept (.of_runs hruns)).1⟩

/-- Two uploads in the same millisecond: the second one fails and deletes the file of the first
one. -/
theorem not_receipts_kept : ¬ ∀ s : Archive, Machine.Reaches Archive.step (fun _ _ => True) {} s →
    Stored s := by
  intro h
  have hrun : (Machine.runs Archive.step (fun _ _ => True)
      [.upload "a" .jpg, .upload "b" .jpg, .go 0 .ok, .go 1 .ok, .go 0 .ok, .go 1 .ok, .go 0 .ok,
        .go 1 .ok, .go 0 .ok,
        .go 1 .ok, .go 0 .ok, .go 1 .failed, .go 1 .ok] {}).any
      (fun s => s.receiptPath = some ⟨0, .jpg⟩ ∧ s.files.get? ⟨0, .jpg⟩ = none) = true := by
    decide +kernel
  obtain ⟨s, hruns, hs⟩ := (Option.any_eq_true ..).1 hrun
  obtain ⟨hpath, hnone⟩ := of_decide_eq_true hs
  obtain ⟨c, u, -, -, -, hfile⟩ := (h s (.of_runs hruns)).receipt _ hpath
  rw [hnone] at hfile
  cases hfile

end NexusWorkflow.Receipts
