import Mathlib

/-!
# Chains of ancestors

Nodes are filed under keys, and a node may name the key of its parent.  The chain of a key is its
node, the node of the parent, and so on up to a node that has none.
-/

namespace Ancestry

variable {κ α : Type*} {get get' : κ → Option α} {parent : α → Option κ} {k : Option κ}
  {l l' : List α} {S : κ → Prop}

/-- The nodes from a key on upwards; every key on the way has a node. -/
inductive Chain (get : κ → Option α) (parent : α → Option κ) : Option κ → List α → Prop
  | top : Chain get parent none []
  | link {k : κ} {a : α} {rest : List α} (h : get k = some a)
      (tail : Chain get parent (parent a) rest) : Chain get parent (some k) (a :: rest)

namespace Chain

theorem unique (h : Chain get parent k l) (h' : Chain get parent k l') : l = l' := by
  induction h generalizing l' with
  | top =>
    cases h'
    rfl
  | link h _ ih =>
    cases h' with
    | link h' tail' =>
      obtain rfl := Option.some.inj (h.symm.trans h')
      rw [ih tail']

/-- The chain is the same where more nodes are filed. -/
theorem mono (hget : ∀ k a, get k = some a → get' k = some a) (h : Chain get parent k l) :
    Chain get' parent k l := by
  induction h with
  | top => exact .top
  | link h _ ih => exact .link (hget _ _ h) ih

variable {key : α → κ}

/-- The rest of a chain from one of its nodes on is the chain of that node. -/
theorem from_mem (hkey : ∀ k a, get k = some a → key a = k) (h : Chain get parent k l) {a : α}
    (ha : a ∈ l) :
    ∃ before after, l = before ++ a :: after ∧ Chain get parent (some (key a)) (a :: after) := by
  induction h with
  | top => cases ha
  | @link k b rest h tail ih =>
    rcases List.mem_cons.1 ha with rfl | ha
    · refine ⟨[], rest, rfl, ?_⟩
      rw [hkey k a h]
      exact .link h tail
    · obtain ⟨before, after, rfl, hchain⟩ := ih ha
      exact ⟨b :: before, after, rfl, hchain⟩

/-- No key comes up twice: the chain from its second place on would be as long as the one from its
first. -/
theorem nodup (hkey : ∀ k a, get k = some a → key a = k) (h : Chain get parent k l) :
    (l.map key).Nodup := by
  induction h with
  | top => exact List.nodup_nil
  | @link k a rest h tail ih =>
    rw [List.map_cons, List.nodup_cons]
    refine ⟨fun hmem => ?_, ih⟩
    obtain ⟨b, hb, hba⟩ := List.mem_map.1 hmem
    obtain ⟨before, after, rfl, hchain⟩ := tail.from_mem hkey hb
    rw [hba, hkey k a h] at hchain
    have hlength := congrArg List.length (hchain.unique (.link h tail))
    simp only [List.length_cons, List.length_append] at hlength
    omega

end Chain

/-- Every key of a set has a node, whose parent is in the set too and smaller. -/
def Grounded [LT κ] (get : κ → Option α) (parent : α → Option κ) (S : κ → Prop) : Prop :=
  ∀ k, S k → ∃ a, get k = some a ∧ ∀ p, parent a = some p → S p ∧ p < k

/-- Then every key of the set has a chain, and the chain stays in the set. -/
theorem Grounded.chain [LT κ] [WellFoundedLT κ] (h : Grounded get parent S) {k : κ} (hk : S k) :
    ∃ l, Chain get parent (some k) l ∧ ∀ a ∈ l, ∃ k, S k ∧ get k = some a := by
  induction k using WellFoundedLT.induction with
  | ind k ih =>
    obtain ⟨a, ha, hparent⟩ := h k hk
    cases hp : parent a with
    | none =>
      refine ⟨[a], .link ha (hp ▸ .top), ?_⟩
      rintro b hb
      obtain rfl := List.mem_singleton.1 hb
      exact ⟨k, hk, ha⟩
    | some p =>
      obtain ⟨hS, hlt⟩ := hparent p hp
      obtain ⟨rest, hchain, hrest⟩ := ih p hlt hS
      refine ⟨a :: rest, .link ha (hp ▸ hchain), ?_⟩
      rintro b hb
      rcases List.mem_cons.1 hb with rfl | hb
      · exact ⟨k, hk, ha⟩
      · exact hrest b hb

/-- The last node of a chain has no parent. -/
theorem Chain.getLast? {k : κ} (h : Chain get parent (some k) l) :
    ∃ a, l.getLast? = some a ∧ parent a = none := by
  generalize hk : some k = o at h
  induction h generalizing k with
  | top => cases hk
  | @link j a rest h tail ih =>
    cases hp : parent a with
    | none =>
      rw [hp] at tail
      cases tail
      exact ⟨a, rfl, hp⟩
    | some p =>
      obtain ⟨b, hb, hbp⟩ := ih hp.symm
      exact ⟨b, by rw [List.getLast?_cons, hb]; rfl, hbp⟩

end Ancestry
