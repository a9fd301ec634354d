import OnlineAccounts.Loop

/-! # The search for a port

`LoopbackServerPrivate::listen` (`loopback-server.cpp`) tries the given port and, as long as this
fails, the ports after it, for a number of attempts that is set from QML.  The attempts are counted
in 16 bits, the port is computed in 16 bits, and the number of attempts is a signed `int`.

The search stays among the ports from the given one up to the last one of them and of the 65535
that there are, unless it goes past 65535 and finds no free port on the way (`stays_in_range_iff`).
It goes on with port 0 then, for which the system takes any free port, and with the low ports; and
with more than 65535 attempts it never ends if nothing is free (`never_returns`). -/

namespace OnlineAccounts.OnlineAccountsPlugin.PortSearch

open Loop

/-- Which ports are busy, and the port that the system gives if it is asked for any. -/
structure Ports where
  busy : ℕ → Bool
  anyPort : Option ℕ := none

/-- `QTcpServer::listen(QHostAddress::Any, port)`: the port that the server listens on, if it
succeeds. -/
def Ports.listen (ports : Ports) (port : ℕ) : Option ℕ :=
  if port = 0 then ports.anyPort else if ports.busy port then none else some port

/-- The state of `listen`, with the ports that it has tried. -/
structure Search where
  attempts : ℕ := 0
  tried : List ℕ := []
  listening : Option ℕ := none
deriving DecidableEq

/-- The values of a `uint16_t`. -/
def uint16 (n : ℕ) : ℕ := n % 65536

variable (ports : Ports) (port : ℕ) (portIncrementAttempts : ℤ)

/-- The `do` loop of `listen`; it returns true if the server listens. -/
def round (s : Search) : Round Search :=
  let port' := uint16 (port + s.attempts)
  let tried := s.tried ++ [port']
  match ports.listen port' with
  | some actual => .stop { s with tried := tried, listening := some actual }
  | none =>
      let s' : Search := { s with attempts := uint16 (s.attempts + 1), tried := tried }
      if (s.attempts : ℤ) < portIncrementAttempts then .again s' else .stop s'

/-! ### What the search should do -/

/-- The ports that may be tried, from `port` on. -/
def range (last : ℕ) (port : ℕ) : List ℕ := List.range' port (last + 1 - port)

/-- The last port that may be tried. -/
def last : ℕ := min (port + portIncrementAttempts.toNat) 65535

/-- The search ends, has tried the ports of the range in order up to the first free one, and listens
on that one if there is one. -/
def StaysInRange : Prop :=
  ∃ t, Exits (round ports port portIncrementAttempts) {} t ∧
    t.tried = (range (last port portIncrementAttempts) port).takeWhile ports.busy ++
      t.listening.toList ∧
    t.listening = (range (last port portIncrementAttempts) port).find? (!ports.busy ·)

/-- The attempts do not go past the last port, or a port is free up to there. -/
def NoOverflow : Prop :=
  (port : ℤ) + portIncrementAttempts ≤ 65535 ∨ ∃ q, port ≤ q ∧ q ≤ 65535 ∧ ports.busy q = false

variable {ports port portIncrementAttempts}

/-! ### One round -/

theorem range_of_le {last q : ℕ} (h : q ≤ last) : range last q = q :: range last (q + 1) := by
  have hlength : last + 1 - q = (last + 1 - (q + 1)) + 1 := by omega
  rw [range, hlength, List.range'_succ]
  rfl

theorem range_of_lt {last q : ℕ} (h : last < q) : range last q = [] := by
  have hlength : last + 1 - q = 0 := by omega
  rw [range, hlength]
  rfl

theorem listen_of_free {q : ℕ} (hq : q ≠ 0) (h : ports.busy q = false) :
    ports.listen q = some q := by
  rw [Ports.listen, if_neg hq, h]
  rfl

theorem listen_of_busy {q : ℕ} (hq : q ≠ 0) (h : ports.busy q = true) : ports.listen q = none := by
  rw [Ports.listen, if_neg hq, if_pos h]

theorem round_of_free {s : Search} (hle : port + s.attempts ≤ 65535) (hpos : 1 ≤ port)
    (h : ports.busy (port + s.attempts) = false) :
    round ports port portIncrementAttempts s =
      .stop { s with
        tried := s.tried ++ [port + s.attempts], listening := some (port + s.attempts) } := by
  have hport : uint16 (port + s.attempts) = port + s.attempts := Nat.mod_eq_of_lt (by omega)
  simp only [round, hport, listen_of_free (by omega) h]

/-- The state after an attempt at a busy port. -/
def afterBusy (port : ℕ) (s : Search) : Search :=
  { s with attempts := s.attempts + 1, tried := s.tried ++ [port + s.attempts] }

/-- A busy port ends the search only with the last attempt. -/
theorem round_of_busy {s : Search} (hle : port + s.attempts ≤ 65535) (hpos : 1 ≤ port)
    (h : ports.busy (port + s.attempts) = true) :
    round ports port portIncrementAttempts s =
      if (s.attempts : ℤ) < portIncrementAttempts then .again (afterBusy port s)
      else .stop (afterBusy port s) := by
  have hport : uint16 (port + s.attempts) = port + s.attempts := Nat.mod_eq_of_lt (by omega)
  have hattempts : uint16 (s.attempts + 1) = s.attempts + 1 := Nat.mod_eq_of_lt (by omega)
  simp only [round, hport, hattempts, listen_of_busy (by omega) h]
  rfl

/-! ### Searches in the range -/

/-- What the search should do from an attempt on. -/
def Continues (ports : Ports) (port : ℕ) (portIncrementAttempts : ℤ) (s t : Search) : Prop :=
  t.tried = s.tried ++ (range (last port portIncrementAttempts) (port + s.attempts)).takeWhile
    ports.busy ++ t.listening.toList ∧
  t.listening =
    (range (last port portIncrementAttempts) (port + s.attempts)).find? (!ports.busy ·)

theorem Continues.of_afterBusy {s t : Search}
    (hle : port + s.attempts ≤ last port portIncrementAttempts)
    (hbusy : ports.busy (port + s.attempts) = true)
    (h : Continues ports port portIncrementAttempts (afterBusy port s) t) :
    Continues ports port portIncrementAttempts s t := by
  obtain ⟨htried, hlistening⟩ := h
  have hnext : port + (afterBusy port s).attempts = port + s.attempts + 1 := rfl
  rw [hnext] at htried hlistening
  refine ⟨?_, ?_⟩
  · rw [htried, range_of_le hle]
    simp [afterBusy, hbusy]
  · rw [hlistening, range_of_le hle]
    simp [hbusy]

theorem continues_of_past {s : Search} (hlistening : s.listening = none)
    (hpast : last port portIncrementAttempts < port + s.attempts) :
    Continues ports port portIncrementAttempts s s := by
  simp [Continues, range_of_lt hpast, hlistening]

/-- A search with another attempt is at port 65535, and has found a free one. -/
theorem not_more_of_last {s : Search}
    (hlast : port + s.attempts + 0 = last port portIncrementAttempts)
    (hbusy : ports.busy (port + s.attempts) = true)
    (h : (port : ℤ) + portIncrementAttempts ≤ 65535 ∨
      ∃ q, port + s.attempts ≤ q ∧ q ≤ 65535 ∧ ports.busy q = false) :
    ¬ (s.attempts : ℤ) < portIncrementAttempts := by
  intro hmore
  unfold last at hlast
  obtain hle | ⟨q, hq, hq', hfree⟩ := h
  · omega
  · obtain rfl : q = port + s.attempts := by omega
    simp [hbusy] at hfree

theorem exits_of_noOverflow (hpos : 1 ≤ port) (left : ℕ) {s : Search}
    (hleft : port + s.attempts + left = last port portIncrementAttempts)
    (hlistening : s.listening = none)
    (h : (port : ℤ) + portIncrementAttempts ≤ 65535 ∨
      ∃ q, port + s.attempts ≤ q ∧ q ≤ 65535 ∧ ports.busy q = false) :
    ∃ t, Exits (round ports port portIncrementAttempts) s t ∧
      Continues ports port portIncrementAttempts s t := by
  have hlast : last port portIncrementAttempts ≤ 65535 := min_le_right _ _
  have hend : last port portIncrementAttempts ≤ port + portIncrementAttempts.toNat :=
    min_le_left _ _
  have hfree {s : Search} (hle : port + s.attempts ≤ last port portIncrementAttempts)
      (hbusy : ports.busy (port + s.attempts) = false) :
      ∃ t, Exits (round ports port portIncrementAttempts) s t ∧
        Continues ports port portIncrementAttempts s t := by
    refine ⟨_, .stop (round_of_free (by omega) hpos hbusy), ?_⟩
    simp [Continues, range_of_le hle, hbusy]
  induction left generalizing s with
  | zero =>
      have hle : port + s.attempts ≤ last port portIncrementAttempts := by omega
      cases hbusy : ports.busy (port + s.attempts) with
      | false => exact hfree hle hbusy
      | true =>
          have hmore : ¬ (s.attempts : ℤ) < portIncrementAttempts :=
            not_more_of_last hleft hbusy h
          have hround : round ports port portIncrementAttempts s = .stop (afterBusy port s) :=
            (round_of_busy (by omega) hpos hbusy).trans (if_neg hmore)
          refine ⟨_, .stop hround, ?_⟩
          have hpast : last port portIncrementAttempts < port + (afterBusy port s).attempts := by
            show last port portIncrementAttempts < port + (s.attempts + 1)
            omega
          exact .of_afterBusy hle hbusy (continues_of_past hlistening hpast)
  | succ left ih =>
      have hle : port + s.attempts ≤ last port portIncrementAttempts := by omega
      cases hbusy : ports.busy (port + s.attempts) with
      | false => exact hfree hle hbusy
      | true =>
          have hmore : (s.attempts : ℤ) < portIncrementAttempts := by omega
          have hround : round ports port portIncrementAttempts s = .again (afterBusy port s) :=
            (round_of_busy (by omega) hpos hbusy).trans (if_pos hmore)
          have hnext : port + (afterBusy port s).attempts = port + s.attempts + 1 := rfl
          obtain ⟨t, hexits, hcontinues⟩ := ih (s := afterBusy port s) (by omega) hlistening (by
            refine h.imp_right ?_
            rintro ⟨q, hq, hq', hqfree⟩
            have hne : q ≠ port + s.attempts := by
              rintro rfl
              simp [hbusy] at hqfree
            exact ⟨q, by omega, hq', hqfree⟩)
          exact ⟨t, .again hround hexits, hcontinues.of_afterBusy hle hbusy⟩

/-! ### Searches that leave the range -/

/-- What holds of a search that goes past the last port without finding a free one: it has not got
there yet, or has tried port 0. -/
def Passes (port : ℕ) (s : Search) : Prop :=
  (port + s.attempts ≤ 65536) ∨ 0 ∈ s.tried

theorem tried_round (s : Search) : (round ports port portIncrementAttempts s).state.tried =
    s.tried ++ [uint16 (port + s.attempts)] := by
  unfold round
  dsimp only
  split
  · rfl
  · split
    · rfl
    · rfl

/-- A round gets to the next port, or port 0 has been tried. -/
theorem Passes.round {s : Search} (hpos : 1 ≤ port)
    (hover : ¬ (port : ℤ) + portIncrementAttempts ≤ 65535)
    (hbusy : ∀ q, port ≤ q → q ≤ 65535 → ports.busy q = true) (h : Passes port s) :
    (port + s.attempts ≤ 65535 ∧
      round ports port portIncrementAttempts s = .again (afterBusy port s)) ∨
    0 ∈ (round ports port portIncrementAttempts s).state.tried := by
  rw [tried_round]
  obtain hle | hmem := h
  · by_cases hlt : port + s.attempts ≤ 65535
    · have hmore : (s.attempts : ℤ) < portIncrementAttempts := by omega
      exact .inl ⟨hlt, (round_of_busy hlt hpos (hbusy _ (by omega) hlt)).trans (if_pos hmore)⟩
    · -- the port behind 65535 is port 0
      have hport : port + s.attempts = 65536 := by omega
      rw [hport]
      exact .inr (List.mem_append_right _ List.mem_cons_self)
  · exact .inr (List.mem_append_left _ hmem)

/-- Every search that ends has tried port 0. -/
theorem zero_mem_of_overflow (hpos : 1 ≤ port)
    (h : ¬ NoOverflow ports port portIncrementAttempts) (hport : port ≤ 65535) {t : Search}
    (hexits : Exits (round ports port portIncrementAttempts) {} t) : 0 ∈ t.tried := by
  obtain ⟨hover, hbusy⟩ : ¬ (port : ℤ) + portIncrementAttempts ≤ 65535 ∧
      ∀ q, port ≤ q → q ≤ 65535 → ports.busy q = true := by
    simpa [NoOverflow, not_or] using h
  have hstart : Passes port {} := .inl (by
    show port + 0 ≤ 65536
    omega)
  obtain ⟨s, hs, hstop⟩ := hexits.invariant (I := Passes port) hstart (by
    intro s s' hs hround
    obtain ⟨hle, hagain⟩ | hzero := hs.round hpos hover hbusy
    · rw [hagain] at hround
      obtain rfl := Round.again.inj hround
      refine .inl ?_
      show port + (s.attempts + 1) ≤ 65536
      omega
    · rw [hround] at hzero
      exact .inr hzero)
  obtain ⟨_, hagain⟩ | hzero := hs.round hpos hover hbusy
  · rw [hagain] at hstop
    cases hstop
  · rw [hstop] at hzero
    exact hzero

/-! ### All searches -/

/-- For every port that can be asked for, and every number of attempts, the search stays in its
range exactly if it does not go past port 65535 or finds a free one up to there. -/
theorem stays_in_range_iff (ports : Ports) {port : ℕ} (hpos : 1 ≤ port) (hport : port ≤ 65535)
    (portIncrementAttempts : ℤ) :
    StaysInRange ports port portIncrementAttempts ↔
      NoOverflow ports port portIncrementAttempts := by
  constructor
  · rintro ⟨t, hexits, htried, hlistening⟩
    by_contra hover
    have hzero := zero_mem_of_overflow hpos hover hport hexits
    -- all ports of the range are positive
    have hrange : ∀ q ∈ range (last port portIncrementAttempts) port, port ≤ q := fun q hq =>
      (List.mem_range'_1.1 hq).1
    rw [htried, List.mem_append] at hzero
    obtain hmem | hmem := hzero
    · have hle := hrange 0 ((List.takeWhile_subset _) hmem)
      omega
    · rw [hlistening, Option.mem_toList] at hmem
      have hle := hrange 0 (List.mem_of_find?_eq_some hmem)
      omega
  · intro h
    obtain ⟨left, hleft⟩ := Nat.exists_eq_add_of_le
      (show port ≤ last port portIncrementAttempts from le_min (by omega) hport)
    obtain ⟨t, hexits, htried, hlistening⟩ :=
      exits_of_noOverflow (s := {}) hpos left hleft.symm rfl h
    exact ⟨t, hexits, htried, hlistening⟩

/-- Port 8080 is busy, and so are the ports up to 8082; four attempts are made. -/
theorem stays_in_range_iff_busy :
    (1 ≤ 8080 ∧ 8080 ≤ 65535) ∧
      (StaysInRange ⟨fun q => q < 8083, none⟩ 8080 3 ↔
        NoOverflow ⟨fun q => q < 8083, none⟩ 8080 3) :=
  ⟨by decide, stays_in_range_iff ⟨fun q => q < 8083, none⟩ (by decide) (by decide) 3⟩

/-- The last port is busy, and one more attempt is made: port 0 is tried, and the server listens on
another port. -/
theorem search_overflows :
    Exits (round ⟨fun q => q = 65535, some 40000⟩ 65535 1) {} ⟨1, [65535, 0], some 40000⟩ ∧
      ¬ StaysInRange ⟨fun q => q = 65535, some 40000⟩ 65535 1 := by
  have hexits : Exits (round ⟨fun q => q = 65535, some 40000⟩ 65535 1) {}
      ⟨1, [65535, 0], some 40000⟩ := exits_of_iterate 2 (by decide)
  refine ⟨hexits, ?_⟩
  rintro ⟨t, ht, _, hlistening⟩
  rw [ht.unique hexits] at hlistening
  revert hlistening
  decide

/-- With more attempts than the counter can count, a search that finds nothing free never ends. -/
theorem never_returns (hbusy : ∀ q, ports.listen q = none) (h : 65535 < portIncrementAttempts) :
    ¬ ∃ t, Exits (round ports port portIncrementAttempts) {} t := by
  have hagain {s : Search} (hs : s.attempts ≤ 65535) :
      round ports port portIncrementAttempts s =
        .again { s with
          attempts := uint16 (s.attempts + 1)
          tried := s.tried ++ [uint16 (port + s.attempts)] } := by
    simp only [round, hbusy]
    exact if_pos (by omega)
  rintro ⟨t, hexits⟩
  obtain ⟨s, hs, hstop⟩ := hexits.invariant (I := fun s => s.attempts ≤ 65535) (Nat.zero_le _) (by
    intro s s' hs hround
    rw [hagain hs] at hround
    obtain rfl := Round.again.inj hround
    exact Nat.le_of_lt_succ (Nat.mod_lt _ (by decide)))
  rw [hagain hs] at hstop
  cases hstop

end OnlineAccounts.OnlineAccountsPlugin.PortSearch
