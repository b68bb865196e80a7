import NexusWorkflow.Lib.Processes

/-!
# Processes among others

The other processes keep an invariant, and what they do to the state is a preorder; a process
withstands them if each of its own operations does the same, whenever it comes, and if the process
ends as it should.  When every program withstands the others, every run keeps the invariant, and
every process that has ended has ended as it should (`World.Leads.withstand`).
-/

section Interference

variable {σ Op : Type} {Answer : Op → Type} {ε α β : Type}
  (outcomes : σ → (op : Op) → List (σ × Except ε (Answer op))) (C : σ → Op → Prop) (I : σ → Prop)
  (R : σ → σ → Prop)

namespace Process

/-- Whatever the others have done before each of its operations, the process keeps to the invariant
and the preorder, and ends in this way. -/
def withstands : Process Op Answer ε α → (σ → α → Prop) → σ → Prop
  | done a, Q, s => Q s a
  | call op next, Q, s =>
      ∀ s₁ s₂ answer, I s₁ → R s s₁ → (s₂, answer) ∈ outcomes s₁ op → (s₂ ≠ s₁ → C s₁ op) →
        I s₂ ∧ R s₁ s₂ ∧ (next answer).withstands Q s₂

variable {outcomes C I R} {Q Q' : σ → α → Prop} {s : σ}

theorem withstands_mono {p : Process Op Answer ε α} (h : p.withstands outcomes C I R Q s)
    (himp : ∀ s a, Q s a → Q' s a) : p.withstands outcomes C I R Q' s := by
  induction p generalizing s with
  | done a => exact himp s a h
  | call op next ih =>
    intro s₁ s₂ answer hI hR hmem hC
    obtain ⟨hI', hR', hrest⟩ := h s₁ s₂ answer hI hR hmem hC
    exact ⟨hI', hR', ih answer hrest⟩

theorem withstands_bind {p : Process Op Answer ε α} {f : α → Process Op Answer ε β}
    {Q : σ → β → Prop} : (p >>= f).withstands outcomes C I R Q s ↔
      p.withstands outcomes C I R (fun s a => (f a).withstands outcomes C I R Q s) s := by
  induction p generalizing s with
  | done a => exact Iff.rfl
  | call op next ih =>
    refine forall_congr' fun s₁ => forall_congr' fun s₂ => forall_congr' fun answer =>
      imp_congr_right fun _ => imp_congr_right fun _ => imp_congr_right fun _ =>
        imp_congr_right fun _ => ?_
    exact and_congr_right fun _ => and_congr_right fun _ => ih answer

/-- What the preorder keeps is still so at the end. -/
theorem withstands.frame {p : Process Op Answer ε α} (h : p.withstands outcomes C I R Q s)
    (F : σ → Prop) (hF : F s) (hstable : ∀ s s', F s → R s s' → F s') :
    p.withstands outcomes C I R (fun s a => Q s a ∧ F s) s := by
  induction p generalizing s with
  | done a => exact ⟨h, hF⟩
  | call op next ih =>
    intro s₁ s₂ answer hI hR hmem hC
    obtain ⟨hI', hR', hrest⟩ := h s₁ s₂ answer hI hR hmem hC
    exact ⟨hI', hR', ih answer hrest (hstable _ _ (hstable _ _ hF hR) hR')⟩

/-- The others have done something meanwhile. -/
theorem withstands.after (htrans : ∀ s₁ s₂ s₃, R s₁ s₂ → R s₂ s₃ → R s₁ s₃)
    (hQ : ∀ s s' a, Q s a → R s s' → Q s' a) {p : Process Op Answer ε α} {s' : σ}
    (h : p.withstands outcomes C I R Q s) (hR : R s s') : p.withstands outcomes C I R Q s' := by
  cases p with
  | done a => exact hQ _ _ _ h hR
  | call op next => exact fun s₁ s₂ answer hI hR' => h s₁ s₂ answer hI (htrans _ _ _ hR hR')

end Process

namespace Async

/-- Whatever the others have done before each of its operations, the function keeps to the invariant
and the preorder, and returns or throws in this way. -/
def withstands (x : Async Op Answer ε α) (Q : σ → Except ε α → Prop) (s : σ) : Prop :=
  Process.withstands outcomes C I R x.run Q s

variable {outcomes C I R} {x : Async Op Answer ε α} {s : σ}

theorem withstands_mono {Q Q' : σ → Except ε α → Prop} (h : x.withstands outcomes C I R Q s)
    (himp : ∀ s r, Q s r → Q' s r) : x.withstands outcomes C I R Q' s :=
  Process.withstands_mono h himp

theorem withstands.frame {Q : σ → Except ε α → Prop} (h : x.withstands outcomes C I R Q s)
    (F : σ → Prop) (hF : F s) (hstable : ∀ s s', F s → R s s' → F s') :
    x.withstands outcomes C I R (fun s r => Q s r ∧ F s) s :=
  Process.withstands.frame h F hF hstable

theorem withstands_await {op : Op} {Q : σ → Except ε (Answer op) → Prop} :
    (await op : Async Op Answer ε (Answer op)).withstands outcomes C I R Q s ↔
      ∀ s₁ s₂ answer, I s₁ → R s s₁ → (s₂, answer) ∈ outcomes s₁ op → (s₂ ≠ s₁ → C s₁ op) →
        I s₂ ∧ R s₁ s₂ ∧ Q s₂ answer := Iff.rfl

theorem withstands_bind {f : α → Async Op Answer ε β} {Q : σ → Except ε β → Prop} :
    (x >>= f).withstands outcomes C I R Q s ↔
      x.withstands outcomes C I R (fun s r =>
        match r with
        | .ok a => (f a).withstands outcomes C I R Q s
        | .error e => Q s (.error e)) s := by
  unfold Async.withstands
  rw [ExceptT.run_bind, Process.withstands_bind]
  constructor <;> intro h <;> refine Process.withstands_mono h fun s r hr =>
    ?_ <;> cases r <;> exact hr

theorem withstands_map {g : α → β} {Q : σ → Except ε β → Prop} :
    (g <$> x).withstands outcomes C I R Q s ↔
    x.withstands outcomes C I R (fun s r => Q s (r.map g)) s := by
  unfold Async.withstands
  rw [ExceptT.run_map, map_eq_pure_bind, Process.withstands_bind]
  exact Iff.rfl

theorem withstands_tryCatch {handle : ε → Async Op Answer ε α} {Q : σ → Except ε α → Prop} :
    (tryCatch x handle).withstands outcomes C I R Q s ↔
      x.withstands outcomes C I R (fun s r =>
        match r with
        | .ok a => Q s (.ok a)
        | .error e => (handle e).withstands outcomes C I R Q s) s := by
  unfold Async.withstands
  show Process.withstands outcomes C I R (x.run >>= fun r => _) Q s ↔ _
  rw [Process.withstands_bind]
  constructor <;> intro h <;> refine Process.withstands_mono h fun s r hr =>
    ?_ <;> cases r <;> exact hr

/-- A loop, when what each turn has achieved stays so. -/
theorem withstands_forM {ι : Type} {l : List ι} {f : ι → Async Op Answer ε Unit} {P : ι → σ → Prop}
    (hf : ∀ i s, (f i).withstands outcomes C I R (fun s r => ∀ u, r = .ok u → P i s) s)
    (hP : ∀ i s s', P i s → R s s' → P i s') :
    (l.forM f).withstands outcomes C I R (fun s r => ∀ u, r = .ok u → ∀ i ∈ l, P i s) s := by
  have hloop : ∀ done : List ι, (∀ i ∈ done, P i s) →
      (l.forM f).withstands outcomes C I R
        (fun s r => ∀ u, r = .ok u → ∀ i ∈ done ++ l, P i s) s := by
    induction l generalizing s with
    | nil =>
      intro done hdone
      rw [List.append_nil]
      exact fun _ _ => hdone
    | cons i l ih =>
      intro done hdone
      have hframe := (hf i s).frame (fun s => ∀ j ∈ done, P j s) hdone fun s s' h hR j hj =>
          hP j s s' (h j hj) hR
      change (f i >>= fun _ => l.forM f).withstands outcomes C I R _ s
      refine withstands_bind.2 (withstands_mono hframe ?_)
      rintro s' (e | u) ⟨hi, hdone'⟩
      · exact fun _ hu => by cases hu
      · have hnext : ∀ j ∈ done ++ [i], P j s' := by
          intro j hj
          rcases List.mem_append.1 hj with hj | hj
          · exact hdone' j hj
          · exact List.mem_singleton.1 hj ▸ hi u rfl
        have hrest := ih (s := s') (done ++ [i]) hnext
        rwa [List.append_assoc, List.singleton_append] at hrest
  exact hloop [] fun _ hi => absurd hi List.not_mem_nil

end Async

variable {κ τ : Type} {outcomes C I R} {program : κ → Process Op Answer ε α} {tick : τ → σ → σ}
  {Q : σ → α → Prop}

/-- If the programs and the changes by themselves keep to the invariant and the preorder, so does
every run, and what the programs should end with is so of all that have ended. -/
theorem World.Leads.withstand {w w' : World σ Op Answer ε α}
    (h : World.Leads outcomes program tick C w w') (hrefl : ∀ s, R s s)
    (htrans : ∀ s₁ s₂ s₃, R s₁ s₂ → R s₂ s₃ → R s₁ s₃) (hQ : ∀ s s' a, Q s a → R s s' → Q s' a)
    (hprogram : ∀ job s, I s → (program job).withstands outcomes C I R Q s)
    (htick : ∀ s t, I s → I (tick t s) ∧ R s (tick t s)) (hI : I w.state)
    (hprocesses : ∀ p ∈ w.processes, p.withstands outcomes C I R Q w.state) :
    I w'.state ∧ R w.state w'.state ∧ ∀ p ∈ w'.processes,
      p.withstands outcomes C I R Q w'.state := by
  induction h with
  | refl => exact ⟨hI, hrefl _, hprocesses⟩
  | @tail w₁ _ _ hmove ih =>
    obtain ⟨hI₁, hR₁, hp₁⟩ := ih
    cases hmove with
    | start job =>
      refine ⟨hI₁, hR₁, fun p hp => ?_⟩
      rcases List.mem_append.1 hp with hp | hp
      · exact hp₁ p hp
      · rw [List.mem_singleton.1 hp]
        exact hprogram job _ hI₁
    | @call i op next s answer hi hmem hC =>
      have hstep := hp₁ _ (List.mem_of_getElem? hi)
      obtain ⟨hI₂, hR₂, hrest⟩ := hstep _ _ _ hI₁ (hrefl _) hmem hC
      refine ⟨hI₂, htrans _ _ _ hR₁ hR₂, fun p hp => ?_⟩
      rcases List.mem_or_eq_of_mem_set hp with hp | rfl
      · exact (hp₁ p hp).after htrans hQ hR₂
      · exact hrest
    | tick t =>
      obtain ⟨hI₂, hR₂⟩ := htick _ t hI₁
      exact ⟨hI₂, htrans _ _ _ hR₁ hR₂, fun p hp => (hp₁ p hp).after htrans hQ hR₂⟩

end Interference
