import AstraeaGateway.Transition

/-!
# `Fifo` — a buffer that is filled one by one and flushed as a whole

The buffer holds what was enqueued since the last flush and remembers what was flushed, in order.
`run_flush_last` says what is where after any sequence of operations: the buffer splits the history at its
last flush.
-/

namespace Fifo

open Transition

variable {α : Type}

inductive Op (α : Type)
  | enqueue (x : α)
  | flush

/-- What is held, and what all flushes together have released. -/
structure Buffer (α : Type) where
  held     : List α
  released : List α

def apply (b : Buffer α) : Op α → Buffer α
  | .enqueue x => { b with held := b.held ++ [x] }
  | .flush     => ⟨[], b.released ++ b.held⟩

/-- The buffer accepts every operation in every state. -/
def buffer (α : Type) : System (Buffer α) (Op α) := ⟨⟨[], []⟩, fun b op => some (apply b op)⟩

/-- The elements enqueued by a sequence of operations, in order. -/
def enqueued : List (Op α) → List α
  | []                 => []
  | .enqueue x :: ops  => x :: enqueued ops
  | .flush :: ops      => enqueued ops

theorem run_cons_eq (b : Buffer α) (op : Op α) (ops : List (Op α)) :
    (buffer α).run b (op :: ops) = (buffer α).run (apply b op) ops := rfl

/-- Without a flush, everything stays. -/
theorem run_of_no_flush (b : Buffer α) (ops : List (Op α)) (h : Op.flush ∉ ops) :
    (buffer α).run b ops = some ⟨b.held ++ enqueued ops, b.released⟩ := by
  induction ops generalizing b with
  | nil => rw [System.run_nil, enqueued, List.append_nil]
  | cons op ops ih =>
      have hops : Op.flush ∉ ops := fun hmem => h (List.mem_cons_of_mem op hmem)
      cases op with
      | enqueue x =>
          rw [run_cons_eq, ih _ hops]
          show some _ = some _
          rw [enqueued, apply, List.append_assoc, List.singleton_append]
      | flush => exact absurd List.mem_cons_self h

/-- Nothing is lost, duplicated or reordered. -/
theorem released_append_held (b b' : Buffer α) (ops : List (Op α))
    (h : (buffer α).run b ops = some b') :
    b'.released ++ b'.held = b.released ++ b.held ++ enqueued ops := by
  induction ops generalizing b with
  | nil =>
      obtain rfl := Option.some.inj h
      rw [enqueued, List.append_nil]
  | cons op ops ih =>
      rw [run_cons_eq] at h
      rw [ih (apply b op) h]
      cases op with
      | enqueue x => simp [apply, enqueued]
      | flush => simp [apply, enqueued]

/-- **The last flush splits the history**: what was enqueued before it is released, what was enqueued
    after it is held. -/
theorem run_flush_last (pre post : List (Op α)) (h : Op.flush ∉ post) :
    (buffer α).run ⟨[], []⟩ (pre ++ .flush :: post) = some ⟨enqueued post, enqueued pre⟩ := by
  obtain ⟨b, hpre⟩ : ∃ b, (buffer α).run ⟨[], []⟩ pre = some b := by
    generalize (⟨[], []⟩ : Buffer α) = b₀
    induction pre generalizing b₀ with
    | nil => exact ⟨b₀, rfl⟩
    | cons op pre ih => exact ih (apply b₀ op)
  have hall := released_append_held _ _ pre hpre
  rw [System.run_append, hpre, Option.bind_some, run_cons_eq, run_of_no_flush _ _ h]
  show some (⟨[] ++ enqueued post, b.released ++ b.held⟩ : Buffer α) = some ⟨enqueued post, enqueued pre⟩
  rw [hall]
  rfl

end Fifo
