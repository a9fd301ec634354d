import OnlineAccounts.Ipc

/-! # A stream that is written while it is read

`Ipc.lean` has one sequence of payloads, written before the first byte arrives.  The sockets
between the service and its UI processes are written at any time: a `Wire` is one direction of such
a socket, with the number of bytes that have arrived and the reader behind them, and the payloads
that have been written are given to it from outside.

A wire stays in step (`Wire.InStep`) when more is written, and when bytes arrive that do not end
inside a length.  Its reader has then emitted exactly the payloads whose bytes have all arrived
(`whole`). -/

namespace OnlineAccounts

open Loop

/-! ### Whole frames -/

/-- How many of the payloads have all their bytes among the first `n` bytes of the stream. -/
def whole : List Bytes → ℕ → ℕ
  | [], _ => 0
  | p :: ps, n => if 4 + p.length ≤ n then whole ps (n - (4 + p.length)) + 1 else 0

theorem whole_zero (ps : List Bytes) : whole ps 0 = 0 := by
  cases ps with
  | nil => rfl
  | cons p ps => simp [whole]

theorem whole_append (ps qs : List Bytes) (n : ℕ) :
    whole (ps ++ qs) ((frames ps).length + n) = ps.length + whole qs n := by
  induction ps with
  | nil => simp
  | cons p ps ih =>
      have hrest : (frames (p :: ps)).length + n - (4 + p.length) = (frames ps).length + n := by
        simp only [frames_cons, List.length_append, frame_length]
        omega
      rw [List.cons_append, whole, if_pos, hrest, ih, List.length_cons]
      · omega
      · simp only [frames_cons, List.length_append, frame_length]
        omega

theorem whole_mono (ps : List Bytes) {m n : ℕ} (h : m ≤ n) : whole ps m ≤ whole ps n := by
  induction ps generalizing m n with
  | nil => exact le_rfl
  | cons p ps ih =>
      unfold whole
      by_cases hm : 4 + p.length ≤ m
      · rw [if_pos hm, if_pos (hm.trans h)]
        exact Nat.succ_le_succ (ih (by omega))
      · rw [if_neg hm]
        exact Nat.zero_le _

theorem insideLength_append_left (ps qs : List Bytes) {n : ℕ} (h : n ≤ (frames ps).length) :
    InsideLength (ps ++ qs) n ↔ InsideLength ps n := by
  induction ps generalizing n with
  | nil =>
      obtain rfl : n = 0 := by simpa using h
      exact iff_of_false (insideLength_zero _) (insideLength_zero _)
  | cons p ps ih =>
      simp only [frames_cons, List.length_append, frame_length] at h
      rw [List.cons_append, InsideLength, InsideLength, ih (by omega)]

instance decidableInsideLength : ∀ (ps : List Bytes) (n : ℕ), Decidable (InsideLength ps n)
  | [], _ => .isFalse id
  | p :: ps, n =>
      have := decidableInsideLength ps (n - (4 + p.length))
      inferInstanceAs
        (Decidable ((0 < n ∧ n < 4) ∨ (4 + p.length ≤ n ∧ InsideLength ps (n - (4 + p.length)))))

namespace Ipc

theorem Synced.append {payloads : List Bytes} {arrived : Bytes} {ipc : Ipc}
    (h : Synced payloads arrived ipc) (more : List Bytes) :
    Synced (payloads ++ more) arrived ipc := by
  cases h with
  | between emitted rest readBuffer channel =>
      rw [List.append_assoc]
      exact .between emitted (rest ++ more) readBuffer channel
  | within emitted rest readBuffer channel hp =>
      rw [List.append_assoc, List.cons_append]
      exact .within emitted (rest ++ more) readBuffer channel hp

/-- A reader in step that has taken all that arrived has emitted the whole frames. -/
theorem Synced.emitted_take {payloads : List Bytes} {arrived : Bytes} {ipc : Ipc}
    (h : Synced payloads arrived ipc) (hc : ipc.channel = []) :
    ipc.emitted = payloads.take (whole payloads arrived.length) := by
  cases h with
  | between emitted rest readBuffer channel =>
      obtain rfl : channel = [] := hc
      rw [List.length_append, whole_append, List.length_nil, whole_zero, Nat.add_zero,
        List.take_left]
  | @within emitted rest readBuffer channel p hp =>
      obtain rfl : channel = [] := hc
      have hzero : whole (p :: rest) (lengthBytes p.length ++ (readBuffer ++ [])).length = 0 := by
        rw [whole, if_neg]
        simp only [lengthBytes, List.length_append, List.length_cons, List.length_nil]
        omega
      rw [List.length_append, whole_append, hzero, Nat.add_zero, List.take_left]

/-- `onReadyRead()`; `none` if it does not return. -/
def onReadyRead (ipc : Ipc) : Option Ipc := iterate round (ipc.channel.length + 1) ipc

theorem Synced.exists_onReadyRead {payloads : List Bytes} {arrived : Bytes} {ipc : Ipc}
    (hlen : ∀ p ∈ payloads, p.length < 2 ^ 31) (hpre : arrived <+: frames payloads)
    (h : Synced payloads arrived ipc) :
    ∃ ipc', ipc.onReadyRead = some ipc' ∧ RoundSpec payloads arrived ipc (.stop ipc') := by
  obtain ⟨ipc', hexit, hspec⟩ := h.onReadyRead hlen hpre
  have hagain (s s' : Ipc) (hs : Synced payloads arrived s) (hr : s.round = .again s') :
      Synced payloads arrived s' ∧ s'.channel.length < s.channel.length := by
    have := hs.round hlen hpre
    rwa [hr] at this
  obtain ⟨t, ht⟩ := iterate_of_measure (μ := fun s => s.channel.length) hagain h
    (Nat.lt_succ_self ipc.channel.length)
  obtain rfl := (exits_of_iterate _ ht).unique hexit
  exact ⟨t, ht, hspec⟩

end Ipc

/-! ### One direction of a socket -/

structure Wire where
  /-- How many bytes have arrived. -/
  arrived : ℕ := 0
  reader : Ipc := .setChannels false

namespace Wire

/-- The next bytes of what has been written, at most `n`. -/
def chunk (written : List Bytes) (n : ℕ) (wire : Wire) : Bytes :=
  ((frames written).drop wire.arrived).take n

/-- How many bytes have arrived when the next ones have. -/
def next (written : List Bytes) (n : ℕ) (wire : Wire) : ℕ :=
  wire.arrived + (wire.chunk written n).length

/-- The next bytes arrive, and `onReadyRead` runs; `none` if it does not return. -/
def arrive (written : List Bytes) (n : ℕ) (wire : Wire) : Option Wire :=
  (wire.reader.arrive (wire.chunk written n)).onReadyRead.map fun reader =>
    { arrived := wire.next written n, reader := reader }

/-- The reader has read all that arrived, and has lost nothing of it. -/
structure InStep (written : List Bytes) (wire : Wire) : Prop where
  synced : wire.reader.Synced written ((frames written).take wire.arrived)
  empty : wire.reader.channel = []
  arrived_le : wire.arrived ≤ (frames written).length
  outside : ¬ InsideLength written wire.arrived

theorem inStep_start (written : List Bytes) : InStep written {} where
  synced := Ipc.Synced.between [] written [] []
  empty := rfl
  arrived_le := Nat.zero_le _
  outside := insideLength_zero written

variable {written : List Bytes} {wire : Wire}

/-- The payloads that have been emitted are those that have arrived as a whole. -/
theorem InStep.emitted (h : wire.InStep written) :
    wire.reader.emitted = written.take (whole written wire.arrived) := by
  have := h.synced.emitted_take h.empty
  rwa [List.length_take, min_eq_left h.arrived_le] at this

theorem InStep.append (h : wire.InStep written) (more : List Bytes) :
    wire.InStep (written ++ more) where
  synced := by
    rw [frames_append, List.take_append_of_le_length h.arrived_le]
    exact h.synced.append more
  empty := h.empty
  arrived_le := by
    rw [frames_append, List.length_append]
    exact h.arrived_le.trans (Nat.le_add_right _ _)
  outside := fun hin => h.outside ((insideLength_append_left written more h.arrived_le).mp hin)

theorem take_next (written : List Bytes) (n : ℕ) (wire : Wire) :
    (frames written).take (wire.next written n) =
      (frames written).take wire.arrived ++ wire.chunk written n := by
  rw [next, List.take_add, chunk]
  congr 1
  exact (List.prefix_iff_eq_take.mp (List.take_prefix _ _)).symm

theorem next_le (h : wire.arrived ≤ (frames written).length) (n : ℕ) :
    wire.next written n ≤ (frames written).length := by
  simp only [next, chunk, List.length_take, List.length_drop]
  omega

/-- Bytes arrive that do not end inside a length: the reader takes them and stays in step. -/
theorem InStep.arrive (h : wire.InStep written) (hlen : ∀ p ∈ written, p.length < 2 ^ 31) {n : ℕ}
    (hout : ¬ InsideLength written (wire.next written n)) :
    ∃ wire', wire.arrive written n = some wire' ∧ wire'.InStep written ∧
      wire'.arrived = wire.next written n := by
  have hle := next_le h.arrived_le n
  have hlength : ((frames written).take wire.arrived ++ wire.chunk written n).length =
      wire.next written n := by
    rw [← take_next, List.length_take, min_eq_left hle]
  obtain ⟨reader, hread, -, hspec⟩ := (h.synced.arrive (wire.chunk written n)).exists_onReadyRead
    hlen (take_next written n wire ▸ List.take_prefix _ _)
  rw [hlength] at hspec
  rcases hspec with ⟨hsync, hempty, -⟩ | ⟨hin, -⟩
  · refine ⟨{ arrived := wire.next written n, reader := reader }, ?_, ⟨?_, hempty, hle, hout⟩, rfl⟩
    · rw [Wire.arrive, hread]
      rfl
    · rw [take_next]
      exact hsync
  · exact absurd hin hout

theorem InStep.emitted_append {wire' : Wire} (h : wire.InStep written) (h' : wire'.InStep written)
    (hle : wire.arrived ≤ wire'.arrived) :
    wire.reader.emitted ++ wire'.reader.emitted.drop wire.reader.emitted.length =
      wire'.reader.emitted := by
  obtain ⟨rest, hrest⟩ : wire.reader.emitted <+: wire'.reader.emitted := by
    rw [h.emitted, h'.emitted]
    exact (List.take_isPrefix_take).mpr (.inl (whole_mono written hle))
  rw [← hrest, List.drop_left]

end Wire

end OnlineAccounts
