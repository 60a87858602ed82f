import Mathlib.Data.List.Chain

namespace Streams

open Function List

variable {Q L S : Type}

structure Discipline (L S : Type) where
  exec : S → L → S
  continues : L → Prop
  ready : S → L → Prop
  harmless : L → L → Prop
  stable : ∀ l next, harmless l next → ∀ s, ready s next → ready (exec s l) next

namespace Discipline

def Follows (d : Discipline L S) (l next : L) : Prop :=
  d.continues next → ∀ s, (d.continues l → d.ready s l) → d.ready (d.exec s l) next

structure Primed (d : Discipline L S) (queues : Q → List L) (s : S) : Prop where
  chain : ∀ q, (queues q).IsChain d.Follows
  ready : ∀ q, ∀ l ∈ (queues q).head?, d.continues l → d.ready s l

def Undisturbed (d : Discipline L S) (queues : Q → List L) (q : Q) (l : L) : Prop :=
  ∀ q', q' ≠ q → ∀ next ∈ (queues q').head?, d.continues next → d.harmless l next

variable {d : Discipline L S} {queues : Q → List L} {s s' : S} {q : Q} {l : L}
  {rest block : List L}

theorem primed_empty (d : Discipline L S) (s : S) : d.Primed (fun _ : Q => []) s :=
  ⟨fun _ => isChain_nil, fun _ _ hl => absurd hl (Option.not_mem_none _)⟩

theorem Primed.frame (h : d.Primed queues s) (hready : ∀ l, d.ready s l → d.ready s' l) :
    d.Primed queues s' :=
  ⟨h.chain, fun q l hl hcontinues => hready l (h.ready q l hl hcontinues)⟩

theorem Primed.ready_head (h : d.Primed queues s) (hq : queues q = l :: rest)
    (hl : d.continues l) : d.ready s l :=
  h.ready q l (by rw [hq]; rfl) hl

theorem head?_append_block (hblock : ∀ l ∈ block.head?, ¬ d.continues l) {queue : List L}
    (hl : l ∈ (queue ++ block).head?) (hcontinues : d.continues l) : l ∈ queue.head? := by
  cases queue with
  | nil => exact absurd hcontinues (hblock l hl)
  | cons first queue => exact hl

variable [DecidableEq Q]

theorem Primed.push (h : d.Primed queues s) (hchain : block.IsChain d.Follows)
    (hblock : ∀ l ∈ block.head?, ¬ d.continues l) :
    d.Primed (update queues q (queues q ++ block)) s := by
  refine ⟨fun q' => ?_, fun q' l hl hcontinues => ?_⟩
  · by_cases heq : q' = q
    · rw [heq, update_self]
      exact (h.chain q).append hchain fun l _ next hnext hcontinues =>
        absurd hcontinues (hblock next hnext)
    · rw [update_of_ne heq]
      exact h.chain q'
  · by_cases heq : q' = q
    · rw [heq, update_self] at hl
      exact h.ready q l (head?_append_block hblock hl hcontinues) hcontinues
    · rw [update_of_ne heq] at hl
      exact h.ready q' l hl hcontinues

theorem Primed.pop (h : d.Primed queues s) (hq : queues q = l :: rest)
    (hfree : d.Undisturbed queues q l) :
    d.Primed (update queues q rest) (d.exec s l) := by
  have hchain : (l :: rest).IsChain d.Follows := hq ▸ h.chain q
  obtain ⟨hfollows, hrest⟩ := isChain_cons.mp hchain
  refine ⟨fun q' => ?_, fun q' next hnext hcontinues => ?_⟩
  · by_cases heq : q' = q
    · rwa [heq, update_self]
    · rw [update_of_ne heq]
      exact h.chain q'
  · by_cases heq : q' = q
    · rw [heq, update_self] at hnext
      exact hfollows next hnext hcontinues s (h.ready_head hq)
    · rw [update_of_ne heq] at hnext
      exact d.stable l next (hfree q' heq next hnext hcontinues) s
        (h.ready q' next hnext hcontinues)

end Discipline

def Backed (needs : L → L → Prop) (ran queue : List L) : Prop :=
  ∀ front l back, queue = front ++ l :: back → ∀ x, needs l x → x ∈ ran ∨ x ∈ front

variable {needs needs' : L → L → Prop} {ran queue : List L} {l : L}

theorem backed_nil : Backed needs ran [] := fun _ _ _ h => by simp at h

theorem Backed.mono (h : Backed needs ran queue)
    (hneeds : ∀ l ∈ queue, ∀ x, needs' l x → needs l x) : Backed needs' ran queue :=
  fun front l back hqueue x hx =>
    h front l back hqueue x (hneeds l (hqueue ▸ mem_append_cons_self) x hx)

theorem Backed.head (h : Backed needs ran (l :: queue)) {x : L} (hx : needs l x) : x ∈ ran :=
  (h [] l queue rfl x hx).resolve_right not_mem_nil

theorem Backed.log (h : Backed needs ran queue) (l : L) : Backed needs (ran ++ [l]) queue :=
  fun front next back hqueue x hx =>
    (h front next back hqueue x hx).imp_left (mem_append_left _)

theorem Backed.pop (h : Backed needs ran (l :: queue)) : Backed needs (ran ++ [l]) queue := by
  intro front next back hqueue x hx
  rcases h (l :: front) next back (by rw [hqueue]; rfl) x hx with hran | hfront
  · exact .inl (mem_append_left _ hran)
  · rcases mem_cons.mp hfront with rfl | hrest
    · exact .inl (mem_append_right _ mem_cons_self)
    · exact .inr hrest

theorem Backed.push (h : Backed needs ran queue) {block : List L}
    (hblock : ∀ l ∈ block, ∀ x, needs l x → x ∈ ran ∨ x ∈ queue) :
    Backed needs ran (queue ++ block) := by
  intro front next back hqueue x hx
  rcases append_eq_append_iff.mp hqueue with ⟨mid, hfront, hback⟩ | ⟨mid, hsplit, hback⟩
  · have hmem : next ∈ block := by
      rw [hback]
      exact mem_append_cons_self
    exact (hblock next hmem x hx).imp_right fun hx => hfront ▸ mem_append_left _ hx
  · cases mid with
    | nil =>
      rw [append_nil] at hsplit
      rw [nil_append] at hback
      have hmem : next ∈ block := hback ▸ mem_cons_self
      exact (hblock next hmem x hx).imp_right fun hx => hsplit ▸ hx
    | cons first mid =>
      obtain ⟨rfl, _⟩ := cons.inj hback
      exact h front next mid hsplit x hx

end Streams
