import Wssocks.Net.IP

/-!
# Host and port in one string

`net.JoinHostPort`, which builds the address that is dialled, and `strings.Split(addr, ":")[0]`, which is
used to take the host out of it again.

Results:

* `joinHostPort_inj`: a joined address determines its host and its port.
* `beforeColon_joinHostPort`, `beforeColon_joinHostPort_of_mem`: what the split makes of it.
-/

namespace Wssocks.Net

/-- `net.JoinHostPort`: a host with a colon is taken for an IPv6 literal and put in brackets. -/
def joinHostPort (host port : Bytes) : Bytes :=
  if colon ∈ host then bracket :: host ++ 93 :: colon :: port else host ++ colon :: port

/-- `strings.Split(s, ":")[0]` -/
def beforeColon (s : Bytes) : Bytes := s.takeWhile (· ≠ colon)

theorem beforeColon_append {s t : Bytes} (hs : colon ∉ s) : beforeColon (s ++ colon :: t) = s := by
  rw [beforeColon, List.takeWhile_append_of_pos]
  · simp
  · intro c hc
    simpa using fun h : c = colon => hs (h ▸ hc)

theorem colon_notMem_beforeColon (s : Bytes) : colon ∉ beforeColon s :=
  fun h => by simpa using List.mem_takeWhile_imp h

/-- The part of the joined address before the first colon is the host if the host has no colon, -/
theorem beforeColon_joinHostPort {host port : Bytes} (h : colon ∉ host) :
    beforeColon (joinHostPort host port) = host := by
  rw [joinHostPort, if_neg h, beforeColon_append h]

/-- and otherwise a bracket and the part of the host before its first colon. -/
theorem beforeColon_joinHostPort_of_mem {host port : Bytes} (h : colon ∈ host) :
    beforeColon (joinHostPort host port) = bracket :: beforeColon host := by
  obtain ⟨s, t, rfl, hs⟩ := List.eq_append_cons_of_mem h
  have hs' : colon ∉ bracket :: s := by
    rw [List.mem_cons, not_or]
    exact ⟨by decide, hs⟩
  rw [joinHostPort, if_pos h, beforeColon_append hs, List.cons_append, List.append_assoc, List.cons_append,
    ← List.cons_append, beforeColon_append hs']

/-- The last colon of a string ends what is before it. -/
theorem append_colon_inj {s t p q : Bytes} (hp : colon ∉ p) (hq : colon ∉ q)
    (h : s ++ colon :: p = t ++ colon :: q) : s = t ∧ p = q := by
  rcases List.append_eq_append_iff.mp h with ⟨m, rfl, hm⟩ | ⟨m, rfl, hm⟩
  · cases m with
    | nil => simpa using hm
    | cons c m =>
      rw [List.cons_append, List.cons.injEq] at hm
      exact absurd (by rw [hm.2]; simp) hp
  · cases m with
    | nil => simpa using hm.symm
    | cons c m =>
      rw [List.cons_append, List.cons.injEq] at hm
      exact absurd (by rw [hm.2]; simp) hq

theorem joinHostPort_inj {host host' port port' : Bytes} (hp : colon ∉ port) (hp' : colon ∉ port')
    (h : joinHostPort host port = joinHostPort host' port') : host = host' ∧ port = port' := by
  -- what is before the last colon: the host, or the host in brackets
  have hsplit : ∀ host port, joinHostPort host port =
      (if colon ∈ host then bracket :: host ++ [93] else host) ++ colon :: port := by
    intro host port
    rw [joinHostPort]
    split_ifs <;> simp
  rw [hsplit, hsplit] at h
  obtain ⟨hhost, hport⟩ := append_colon_inj hp hp' h
  refine ⟨?_, hport⟩
  split_ifs at hhost with h₁ h₂ h₂
  · simpa using hhost
  · exact absurd (by rw [← hhost]; simp [h₁]) h₂
  · exact absurd (by rw [hhost]; simp [h₂]) h₁
  · exact hhost

end Wssocks.Net
