import Mathlib.Data.List.Basic
import Wssocks.Pipe.Basic

/-!
# Byte streams as chunks

What is read from a connection is a list of non-empty chunks; what is written to
one is a list of `ConnEvent`s. `Delivered out reads ended` says that a connection
was given the chunks `reads` faithfully so far: this is the purpose of a pair of
pipes, stated without reference to lanes, buffers or goroutines.
-/

namespace Wssocks.Pipe

open Wssocks.Lib

/-- An item that is not among all but the last is the last. -/
theorem append_cons_eq_concat {α : Type} {a post b : List α} {x y : α} (h : a ++ x :: post = b ++ [y])
    (hx : x ∉ b) : post = [] ∧ a = b ∧ x = y := by
  rcases List.eq_nil_or_concat post with rfl | ⟨l, z, rfl⟩
  · obtain ⟨h1, h2⟩ := List.append_inj' h rfl
    exact ⟨rfl, h1, (List.cons.inj h2).1⟩
  · rw [List.concat_eq_append, ← List.cons_append, ← List.append_assoc] at h
    obtain ⟨h1, -⟩ := List.append_inj' h rfl
    rw [← h1] at hx
    simp at hx

/-- The bytes of one event. -/
def ConnEvent.bytes : ConnEvent → List UInt8
  | .data d => d
  | .closeWrite => []

/-- The chunks written to a connection: an empty write has no effect. -/
def payloads (out : List ConnEvent) : List (List UInt8) :=
  (out.map ConnEvent.bytes).filter (· ≠ [])

/-- The chunks in a list of buffers; a buffer with `eof` has no data. -/
def chunks (bs : List Buffer) : List (List UInt8) := (bs.map Buffer.data).filter (· ≠ [])

theorem payloads_append (a b : List ConnEvent) : payloads (a ++ b) = payloads a ++ payloads b := by
  simp [payloads]

theorem chunks_append (a b : List Buffer) : chunks (a ++ b) = chunks a ++ chunks b := by
  simp [chunks]

theorem chunks_mono {a b : List Buffer} (h : a <+: b) : chunks a <+: chunks b := by
  obtain ⟨t, rfl⟩ := h
  exact ⟨chunks t, (chunks_append a t).symm⟩

@[simp] theorem payloads_closeWrite : payloads [.closeWrite] = [] := by
  simp [payloads, ConnEvent.bytes]

theorem payloads_data (b : Buffer) : payloads [.data b.data] = chunks [b] := rfl

@[simp] theorem chunks_default : chunks [default] = [] := rfl

/-- `ws` are the first chunks of `cs`, the last of them possibly cut short. -/
def Cut (ws cs : List (List UInt8)) : Prop :=
  ∃ k d, ws = cs.take k ++ d ∧ (d = [] ∨ ∃ x y, d = [x] ∧ cs[k]? = some y ∧ x <+: y)

theorem Cut.of_isPrefix {ws cs : List (List UInt8)} (h : ws <+: cs) : Cut ws cs :=
  ⟨ws.length, [], by simpa using List.prefix_iff_eq_take.mp h, .inl rfl⟩

theorem Cut.trans_isPrefix {ws cs ds : List (List UInt8)} (h : Cut ws cs) (hp : cs <+: ds) :
    Cut ws ds := by
  obtain ⟨k, d, rfl, hd⟩ := h
  obtain ⟨t, rfl⟩ := hp
  rcases hd with rfl | ⟨x, y, rfl, hy, hxy⟩
  · refine Cut.of_isPrefix ?_
    rw [List.append_nil]
    exact (List.take_prefix _ _).trans (List.prefix_append _ _)
  · have hk : k < cs.length := (List.getElem?_eq_some_iff.mp hy).1
    refine ⟨k, [x], by rw [List.take_append_of_le_length (Nat.le_of_lt hk)], .inr ⟨x, y, rfl, ?_, hxy⟩⟩
    rw [List.getElem?_append_left hk]; exact hy

/-- The bytes of a cut list of chunks are a prefix of the bytes of the list. -/
theorem Cut.flatten_isPrefix {ws cs : List (List UInt8)} (h : Cut ws cs) :
    ws.flatten <+: cs.flatten := by
  obtain ⟨k, d, rfl, hd⟩ := h
  rcases hd with rfl | ⟨x, y, rfl, hy, t, rfl⟩
  · rw [List.append_nil]
    exact ⟨(cs.drop k).flatten, by rw [← List.flatten_append, List.take_append_drop]⟩
  · obtain ⟨hk, hy⟩ := List.getElem?_eq_some_iff.mp hy
    refine ⟨t ++ (cs.drop (k + 1)).flatten, ?_⟩
    have hsplit : cs = cs.take k ++ (x ++ t) :: cs.drop (k + 1) := by
      rw [← hy, ← List.drop_eq_getElem_cons hk, List.take_append_drop]
    conv_rhs => rw [hsplit]
    simp

/-- The connection was given the chunks `reads` in order and without a gap, the
    last one possibly cut by a failed write; `CloseWrite` is the last thing done to
    it, at most once, and only after the source ended (`ended`) and everything read
    from it was written. -/
structure Delivered (out : List ConnEvent) (reads : List (List UInt8)) (ended : Prop) : Prop where
  cut : Cut (payloads out) reads
  closeWrite : ∀ pre post, out = pre ++ .closeWrite :: post →
    post = [] ∧ payloads pre = reads ∧ ended

/-- `CloseWrite` is issued at most once. -/
theorem Delivered.closeWrite_once {out : List ConnEvent} {reads : List (List UInt8)} {ended : Prop}
    (h : Delivered out reads ended) : out.count .closeWrite ≤ 1 := by
  by_cases hm : ConnEvent.closeWrite ∈ out
  · obtain ⟨pre, post, rfl⟩ := List.append_of_mem hm
    have hpost := (h.closeWrite pre post rfl).1
    have hpre : ConnEvent.closeWrite ∉ pre := by
      intro hc
      obtain ⟨a, b, rfl⟩ := List.append_of_mem hc
      have := (h.closeWrite a (b ++ .closeWrite :: post) (by simp)).1
      simp at this
    simp [hpost, List.count_eq_zero_of_not_mem hpre]
  · simp [List.count_eq_zero_of_not_mem hm]

/-- The bytes written to a connection. -/
def written (out : List ConnEvent) : List UInt8 := (out.map ConnEvent.bytes).flatten

theorem flatten_payloads (out : List ConnEvent) : (payloads out).flatten = written out := by
  unfold payloads written
  induction out.map ConnEvent.bytes with
  | nil => rfl
  | cons d ds ih => cases d <;> simp_all

/-- The bytes written to a connection are a prefix of the bytes read from the source;
    `CloseWrite` is issued at most once, after the source has ended and every byte of it
    was written, and nothing is written after it. -/
structure InOrder (out : List ConnEvent) (reads : List (List UInt8)) (ended : Prop) : Prop where
  bytes : written out <+: reads.flatten
  once : out.count .closeWrite ≤ 1
  last : ∀ pre post, out = pre ++ .closeWrite :: post →
    post = [] ∧ written pre = reads.flatten ∧ ended

theorem Delivered.inOrder {out : List ConnEvent} {reads : List (List UInt8)} {ended : Prop}
    (h : Delivered out reads ended) : InOrder out reads ended where
  bytes := by rw [← flatten_payloads]; exact h.cut.flatten_isPrefix
  once := h.closeWrite_once
  last := by
    intro pre post hout
    obtain ⟨h1, h2, h3⟩ := h.closeWrite pre post hout
    exact ⟨h1, by rw [← flatten_payloads, h2], h3⟩

end Wssocks.Pipe
