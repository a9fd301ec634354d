import OnlineAccounts.Ipc

/-! # The welcome message

The standard output of a UI process begins with noise, so the reader of a file skips all bytes up
to the welcome message (`waitWelcomeMessage`).  It looks at 40 bytes at a time; when the message
is not among them it takes all but the last ten, which may be the beginning of the message.

`Waiting` is what holds while it has not been found: the bytes that were taken begin no
occurrence, whatever comes later.  So the reader finds the first occurrence of the stream as soon
as it is there, and stands behind it (`welcome_synchronised`). -/

namespace OnlineAccounts

open Loop

/-! ### First occurrences -/

section occurrence

variable {pattern s : Bytes}

theorem indexOf_eq_some_iff (hp : pattern ≠ []) : ∀ {s : Bytes} {i : ℕ},
    indexOf pattern s = some i ↔
      pattern <+: s.drop i ∧ ∀ j < i, ¬ pattern <+: s.drop j
  | [], i => by simp [indexOf, hp]
  | b :: bs, 0 => by
      by_cases hb : pattern <+: b :: bs
      · simp [indexOf, hb]
      · simp [indexOf, hb]
  | b :: bs, i + 1 => by
      by_cases hb : pattern <+: b :: bs
      · refine iff_of_false ?_ ?_
        · simp [indexOf, hb]
        · exact fun h => h.2 0 (Nat.succ_pos i) hb
      · have hcons : indexOf pattern (b :: bs) = some (i + 1) ↔ indexOf pattern bs = some i := by
          simp [indexOf, hb]
        rw [hcons, indexOf_eq_some_iff hp, List.drop_succ_cons]
        refine and_congr_right fun _ => ?_
        constructor
        · intro h j hj
          cases j with
          | zero => exact hb
          | succ j => exact h j (by omega)
        · exact fun h j hj => h (j + 1) (by omega)

theorem indexOf_eq_none_iff (hp : pattern ≠ []) :
    indexOf pattern s = none ↔ ∀ j, ¬ pattern <+: s.drop j := by
  constructor
  · intro h j hj
    -- the least position of an occurrence would have been returned
    classical
    have hex : ∃ j, pattern <+: s.drop j := ⟨j, hj⟩
    have hfound := (indexOf_eq_some_iff hp).mpr
      ⟨Nat.find_spec hex, fun j hj => Nat.find_min hex hj⟩
    rw [h] at hfound
    cases hfound
  · intro h
    cases hi : indexOf pattern s with
    | none => rfl
    | some i => exact absurd ((indexOf_eq_some_iff hp).mp hi).1 (h i)

/-- What is in a window occurs in the stream, and the window has the whole of it. -/
theorem occurs_take_iff (n j : ℕ) (hp : pattern ≠ []) :
    pattern <+: (s.take n).drop j ↔ pattern <+: s.drop j ∧ j + pattern.length ≤ n := by
  have hlen : 0 < pattern.length := List.length_pos_iff.mpr hp
  rw [List.drop_take, List.prefix_take_iff]
  exact and_congr_right fun _ => by omega

theorem occurs_append_iff {j : ℕ} (h : j + pattern.length ≤ s.length) (later : Bytes) :
    pattern <+: (s ++ later).drop j ↔ pattern <+: s.drop j := by
  rw [List.drop_append_of_le_length (by omega)]
  constructor
  · intro hocc
    exact List.prefix_of_prefix_length_le hocc (List.prefix_append _ _)
      (by rw [List.length_drop]; omega)
  · exact fun hocc => hocc.trans (List.prefix_append _ _)

theorem occurs_length_le {j : ℕ} (hp : pattern ≠ []) (h : pattern <+: s.drop j) :
    j + pattern.length ≤ s.length := by
  have hlen : 0 < pattern.length := List.length_pos_iff.mpr hp
  have hle := h.length_le
  rw [List.length_drop] at hle
  omega

/-- The first occurrence has been found exactly if it is the first one of the whole stream and
has arrived. -/
theorem indexOf_append_iff (hp : pattern ≠ []) (later : Bytes) (i : ℕ) :
    indexOf pattern s = some i ↔
      indexOf pattern (s ++ later) = some i ∧ i + pattern.length ≤ s.length := by
  rw [indexOf_eq_some_iff hp, indexOf_eq_some_iff hp]
  constructor
  · rintro ⟨hocc, hfirst⟩
    have hle := occurs_length_le hp hocc
    refine ⟨⟨(occurs_append_iff hle later).mpr hocc, ?_⟩, hle⟩
    intro j hj hj'
    exact hfirst j hj ((occurs_append_iff (by omega) later).mp hj')
  · rintro ⟨⟨hocc, hfirst⟩, hle⟩
    refine ⟨(occurs_append_iff hle later).mp hocc, ?_⟩
    intro j hj hj'
    exact hfirst j hj ((occurs_append_iff (by omega) later).mpr hj')

end occurrence

theorem welcomeMessage_ne_nil : welcomeMessage ≠ [] := List.cons_ne_nil _ _

theorem welcomeMessage_length : welcomeMessage.length = 10 := rfl

namespace Ipc

/-! ### A reader that waits -/

/-- The reader has taken some of the bytes that arrived, and none of them can be the beginning of
the welcome message. -/
structure Waiting (arrived : Bytes) (ipc : Ipc) : Prop where
  gotWelcomeMessage : ipc.gotWelcomeMessage = false
  expectedLength : ipc.expectedLength = 0
  consumed : ∃ consumed, consumed ++ ipc.channel = arrived ∧
    ∀ j < consumed.length, ∀ later, ¬ welcomeMessage <+: (arrived ++ later).drop j

theorem Waiting.arrive {arrived : Bytes} {ipc : Ipc} (h : Waiting arrived ipc) (chunk : Bytes) :
    Waiting (arrived ++ chunk) (ipc.arrive chunk) := by
  obtain ⟨consumed, hconsumed, hnone⟩ := h.consumed
  refine ⟨h.gotWelcomeMessage, h.expectedLength, consumed, ?_, ?_⟩
  · show consumed ++ (ipc.channel ++ chunk) = arrived ++ chunk
    rw [← List.append_assoc, hconsumed]
  · intro j hj later
    rw [List.append_assoc]
    exact hnone j hj (chunk ++ later)

/-- What a round of `waitWelcomeMessage` makes of a reader that waits. -/
def WaitSpec (arrived : Bytes) : Round Ipc → Prop
  | .again ipc' => Waiting arrived ipc'
  | .stop ipc' => (Waiting arrived ipc' ∧ indexOf welcomeMessage arrived = none) ∨
      ∃ i, indexOf welcomeMessage arrived = some i ∧ ipc'.gotWelcomeMessage = true ∧
        ipc'.expectedLength = 0 ∧ ipc'.channel = arrived.drop (i + welcomeMessage.length)

/-- The message is in the window: this is its first occurrence. -/
theorem Waiting.round_found {arrived : Bytes} {ipc : Ipc} (h : Waiting arrived ipc) {found : ℕ}
    (hfound : indexOf welcomeMessage (ipc.channel.take 40) = some found) :
    WaitSpec arrived (waitRound ipc) := by
  obtain ⟨consumed, hconsumed, hnone⟩ := h.consumed
  simp only [waitRound, hfound]
  refine .inr ⟨consumed.length + found, ?_, rfl, h.expectedLength, ?_⟩
  · rw [indexOf_eq_some_iff welcomeMessage_ne_nil] at hfound ⊢
    obtain ⟨hocc, hfirst⟩ := hfound
    have hwindow (j : ℕ) := occurs_take_iff (s := ipc.channel) 40 j welcomeMessage_ne_nil
    obtain ⟨hocc, hle⟩ := (hwindow found).mp hocc
    rw [← hconsumed]
    refine ⟨?_, ?_⟩
    · rwa [List.drop_length_add_append]
    · intro j hj hj'
      by_cases hlt : j < consumed.length
      · have := hnone j hlt []
        rw [List.append_nil, ← hconsumed] at this
        exact this hj'
      · obtain ⟨k, rfl⟩ := Nat.exists_eq_add_of_le (not_lt.mp hlt)
        rw [List.drop_length_add_append] at hj'
        exact hfirst k (by omega) ((hwindow k).mpr ⟨hj', by omega⟩)
  · show ipc.channel.drop _ = _
    rw [← hconsumed, Nat.add_assoc, List.drop_length_add_append]

/-- The message is not in the window: the bytes that are skipped begin no occurrence. -/
theorem Waiting.round_missed {arrived : Bytes} {ipc : Ipc} (h : Waiting arrived ipc)
    (hmissed : indexOf welcomeMessage (ipc.channel.take 40) = none) :
    WaitSpec arrived (waitRound ipc) := by
  obtain ⟨consumed, hconsumed, hnone⟩ := h.consumed
  rw [indexOf_eq_none_iff welcomeMessage_ne_nil] at hmissed
  have hchannel : ∀ j, j + welcomeMessage.length ≤ 40 → ∀ later, j + welcomeMessage.length ≤
      ipc.channel.length → ¬ welcomeMessage <+: (ipc.channel ++ later).drop j := by
    intro j hj later hle hocc
    rw [occurs_append_iff hle] at hocc
    exact hmissed j ((occurs_take_iff 40 j welcomeMessage_ne_nil).mpr ⟨hocc, hj⟩)
  have hround : waitRound ipc =
      if 0 < (ipc.channel.take 40).length - welcomeMessage.length then
        .again { ipc with
          channel := ipc.channel.drop ((ipc.channel.take 40).length - welcomeMessage.length) }
      else .stop ipc := by
    simp only [waitRound, (indexOf_eq_none_iff welcomeMessage_ne_nil).mpr hmissed]
  rw [hround]
  simp only [List.length_take, welcomeMessage_length] at hchannel ⊢
  split_ifs with hskip
  · -- all but the last ten bytes of the window are taken
    refine ⟨h.gotWelcomeMessage, h.expectedLength,
      consumed ++ ipc.channel.take (min 40 ipc.channel.length - 10), ?_, ?_⟩
    · rw [List.append_assoc, List.take_append_drop, hconsumed]
    · intro j hj later
      by_cases hlt : j < consumed.length
      · exact hnone j hlt later
      · obtain ⟨k, rfl⟩ := Nat.exists_eq_add_of_le (not_lt.mp hlt)
        rw [List.length_append, List.length_take] at hj
        rw [← hconsumed, List.append_assoc, List.drop_length_add_append]
        exact hchannel k (by omega) later (by omega)
  · refine .inl ⟨h, ?_⟩
    rw [indexOf_eq_none_iff welcomeMessage_ne_nil]
    intro j hocc
    by_cases hlt : j < consumed.length
    · exact hnone j hlt [] (by rwa [List.append_nil])
    · obtain ⟨k, rfl⟩ := Nat.exists_eq_add_of_le (not_lt.mp hlt)
      rw [← hconsumed, List.drop_length_add_append] at hocc
      have hle := occurs_length_le welcomeMessage_ne_nil hocc
      rw [welcomeMessage_length] at hle
      refine hchannel k (by omega) [] hle ?_
      rwa [List.append_nil]

theorem Waiting.round {arrived : Bytes} {ipc : Ipc} (h : Waiting arrived ipc) :
    WaitSpec arrived (waitRound ipc) := by
  cases hfound : indexOf welcomeMessage (ipc.channel.take 40) with
  | some found => exact h.round_found hfound
  | none => exact h.round_missed hfound

/-- A call of `waitWelcomeMessage` finds the message exactly if it has arrived. -/
theorem Waiting.waitWelcomeMessage {arrived : Bytes} {ipc : Ipc} (h : Waiting arrived ipc) :
    WaitSpec arrived (.stop ipc.waitWelcomeMessage) := by
  obtain ⟨s, hs, hstop⟩ := (waitWelcomeMessage_exits ipc h.gotWelcomeMessage).invariant
    (I := Waiting arrived) h (fun s s' hs hagain => by
      have hspec := hs.round
      rw [hagain] at hspec
      exact hspec)
  rw [← hstop]
  exact hs.round

/-! ### The first round of `onReadyRead` -/

theorem Waiting.onReadyRead {arrived : Bytes} {ipc : Ipc} (h : Waiting arrived ipc)
    (hnone : indexOf welcomeMessage arrived = none) :
    Waiting arrived ipc.waitWelcomeMessage ∧ OnReadyRead ipc ipc.waitWelcomeMessage := by
  obtain ⟨hwaiting, -⟩ | ⟨i, hfound, -⟩ := h.waitWelcomeMessage
  · refine ⟨hwaiting, .stop ?_⟩
    simp [Ipc.round, h.expectedLength, hwaiting.gotWelcomeMessage]
  · rw [hnone] at hfound
    cases hfound

theorem Waiting.found {arrived : Bytes} {ipc : Ipc} (h : Waiting arrived ipc) {i : ℕ}
    (hfound : indexOf welcomeMessage arrived = some i) :
    ipc.waitWelcomeMessage.gotWelcomeMessage = true ∧
      ipc.waitWelcomeMessage.expectedLength = 0 ∧
      ipc.waitWelcomeMessage.channel = arrived.drop (i + welcomeMessage.length) ∧
      Ipc.round ipc = Ipc.round ipc.waitWelcomeMessage := by
  obtain ⟨-, hnone⟩ | ⟨i', hfound', hgot, h0, hchannel⟩ := h.waitWelcomeMessage
  · rw [hnone] at hfound
    cases hfound
  · obtain rfl := Option.some.inj (hfound.symm.trans hfound')
    refine ⟨hgot, h0, hchannel, ?_⟩
    have hagain : ipc.waitWelcomeMessage.waitWelcomeMessage = ipc.waitWelcomeMessage := by
      rw [Ipc.waitWelcomeMessage, if_pos hgot]
    unfold Ipc.round
    rw [if_pos h.expectedLength, if_pos h0, hagain]

/-- Where a reader is that began by waiting, after some arrivals. -/
inductive Waited (arrived : Bytes) (ipc : Ipc) : Prop where
  | waits (h : Waiting arrived ipc) (hnone : indexOf welcomeMessage arrived = none)
  | done (h : ipc.gotWelcomeMessage = true) {i : ℕ}
      (hfound : indexOf welcomeMessage arrived = some i)

theorem Waited.receives {chunks : List Bytes} : ∀ {arrived : Bytes} {ipc ipc' : Ipc},
    Waited arrived ipc → Receives ipc chunks ipc' → Waited (arrived ++ chunks.flatten) ipc' := by
  induction chunks with
  | nil =>
      intro arrived ipc ipc' h hr
      cases hr
      rwa [List.flatten_nil, List.append_nil]
  | cons chunk chunks ih =>
      intro arrived ipc ipc' h hr
      cases hr with
      | @cons _ t _ _ _ hread hr =>
          rw [List.flatten_cons, ← List.append_assoc]
          refine ih ?_ hr
          cases h with
          | waits h hnone =>
              have hwaiting := h.arrive chunk
              cases hfound : indexOf welcomeMessage (arrived ++ chunk) with
              | none =>
                  obtain ⟨hw, hread'⟩ := hwaiting.onReadyRead hfound
                  obtain rfl := hread'.unique hread
                  exact .waits hw hfound
              | some i =>
                  obtain ⟨hgot, -, -, hround⟩ := hwaiting.found hfound
                  exact .done (onReadyRead_weight (hread.congr hround) hgot).1 hfound
          | done h hfound =>
              rw [indexOf_append_iff welcomeMessage_ne_nil chunk] at hfound
              exact .done (onReadyRead_weight hread h).1 hfound.1

theorem waited_start : Waited [] (setChannels true) := by
  refine .waits ⟨rfl, rfl, [], rfl, ?_⟩ (by decide)
  exact fun j hj => absurd hj (Nat.not_lt_zero j)

/-- As long as the message has not arrived, every call of `onReadyRead` returns. -/
theorem exists_receives_of_none : ∀ {chunks : List Bytes} {arrived : Bytes} {ipc : Ipc},
    Waiting arrived ipc → indexOf welcomeMessage (arrived ++ chunks.flatten) = none →
      ∃ ipc', Receives ipc chunks ipc'
  | [], _, ipc, _, _ => ⟨ipc, .nil ipc⟩
  | chunk :: chunks, arrived, ipc, h, hnone => by
      rw [List.flatten_cons, ← List.append_assoc] at hnone
      have hnone' : indexOf welcomeMessage (arrived ++ chunk) = none := by
        rw [indexOf_eq_none_iff welcomeMessage_ne_nil] at hnone ⊢
        intro j hj
        have hle := occurs_length_le welcomeMessage_ne_nil hj
        exact hnone j ((occurs_append_iff hle chunks.flatten).mpr hj)
      obtain ⟨hwaiting, hread⟩ := (h.arrive chunk).onReadyRead hnone'
      obtain ⟨ipc', hr⟩ := exists_receives_of_none hwaiting hnone
      exact ⟨ipc', .cons hread hr⟩

/-! ### Every stream -/

/-- The next call of `waitWelcomeMessage`, when `arrived` bytes of the stream have arrived. -/
structure Synchronises (stream : Bytes) (arrived : ℕ) (ipc : Ipc) : Prop where
  terminates : ipc.gotWelcomeMessage = false → Exits waitRound ipc ipc.waitWelcomeMessage
  /-- It returns true exactly if the first occurrence has arrived. -/
  returns : ipc.waitWelcomeMessage.gotWelcomeMessage = true ↔
    ∃ i, indexOf welcomeMessage stream = some i ∧ i + welcomeMessage.length ≤ arrived
  /-- The call that finds the message stops right behind its first occurrence. -/
  position : ipc.gotWelcomeMessage = false → ipc.waitWelcomeMessage.gotWelcomeMessage = true →
    ∃ i, indexOf welcomeMessage stream = some i ∧ ipc.waitWelcomeMessage.channel =
      (stream.take arrived).drop (i + welcomeMessage.length)
  /-- Until then, no byte of the first occurrence and no later one has been taken. -/
  untouched : ipc.waitWelcomeMessage.gotWelcomeMessage = false →
    ∃ consumed, consumed ++ ipc.waitWelcomeMessage.channel = stream.take arrived ∧
      ∀ i, indexOf welcomeMessage stream = some i → consumed.length ≤ i

theorem Waiting.synchronises {arrived : Bytes} {ipc : Ipc} (h : Waiting arrived ipc)
    (later : Bytes) : Synchronises (arrived ++ later) arrived.length ipc := by
  have hspec := h.waitWelcomeMessage
  refine ⟨waitWelcomeMessage_exits ipc, ?_, ?_, ?_⟩
  · simp only [← indexOf_append_iff welcomeMessage_ne_nil]
    obtain ⟨hwaiting, hnone⟩ | ⟨i, hfound, hgot, -⟩ := hspec
    · rw [hwaiting.gotWelcomeMessage, hnone]
      simp
    · exact iff_of_true hgot ⟨i, hfound⟩
  · intro _ hgot
    rw [List.take_left]
    obtain ⟨hwaiting, -⟩ | ⟨i, hfound, -, -, hchannel⟩ := hspec
    · rw [hwaiting.gotWelcomeMessage] at hgot
      cases hgot
    · exact ⟨i, ((indexOf_append_iff welcomeMessage_ne_nil later i).mp hfound).1, hchannel⟩
  · intro hgot
    rw [List.take_left]
    obtain ⟨hwaiting, -⟩ | ⟨i, -, hgot', -⟩ := hspec
    · obtain ⟨consumed, hconsumed, hnone⟩ := hwaiting.consumed
      refine ⟨consumed, hconsumed, ?_⟩
      intro i hfound
      by_contra hlt
      exact hnone i (not_le.mp hlt) later ((indexOf_eq_some_iff welcomeMessage_ne_nil).mp hfound).1
    · rw [hgot] at hgot'
      cases hgot'

/-- **Synchronisation on the welcome message**, for every stream of a file and every way of
cutting it into arrivals: in every state that is reached after some of them, the next call behaves
as `Synchronises` says, and until the message has arrived every call of `onReadyRead` returns. -/
theorem welcome_synchronised (chunks : List Bytes) (chunk later : Bytes) :
    (∀ ipc, Receives (setChannels true) chunks ipc →
      Synchronises (chunks.flatten ++ (chunk ++ later)) (chunks.flatten ++ chunk).length
        (ipc.arrive chunk)) ∧
    (indexOf welcomeMessage chunks.flatten = none →
      ∃ ipc, Receives (setChannels true) chunks ipc) := by
  refine ⟨?_, ?_⟩
  · intro ipc hr
    rw [← List.append_assoc]
    have hwaited := waited_start.receives hr
    rw [List.nil_append] at hwaited
    cases hwaited with
    | waits h hnone => exact (h.arrive chunk).synchronises later
    | @done h i hfound =>
        have hgot : (ipc.arrive chunk).waitWelcomeMessage = ipc.arrive chunk := if_pos h
        rw [indexOf_append_iff welcomeMessage_ne_nil (chunk ++ later)] at hfound
        rw [List.append_assoc]
        refine ⟨fun hfalse => absurd (h.symm.trans hfalse) (by simp), ?_, ?_, ?_⟩
        · rw [hgot]
          refine iff_of_true h ⟨i, hfound.1, hfound.2.trans ?_⟩
          exact List.prefix_append _ _ |>.length_le
        · exact fun hfalse => absurd (h.symm.trans hfalse) (by simp)
        · rw [hgot]
          exact fun hfalse => absurd (h.symm.trans hfalse) (by simp)
  · intro hnone
    cases waited_start with
    | waits h _ => exact exists_receives_of_none h (by rwa [List.nil_append])
    | done h => exact absurd h (by decide)

/-- Thirty-five bytes of noise that end like a message begins, then the message, cut after four
bytes. -/
theorem welcome_synchronised_cut :
    ∃ ipc, Receives (setChannels true)
        [List.replicate 32 0 ++ [0x4f, 0x41, 0x55, 0x4f, 0x41, 0x55, 0x69]] ipc ∧
      Synchronises (List.replicate 32 0 ++ [0x4f, 0x41, 0x55] ++ welcomeMessage ++ [1, 0, 0, 0, 7])
        45 (ipc.arrive [0x6e, 0x69, 0x74, 0x49, 0x50, 0x43]) := by
  have hsync := welcome_synchronised
    [List.replicate 32 0 ++ [0x4f, 0x41, 0x55, 0x4f, 0x41, 0x55, 0x69]]
    [0x6e, 0x69, 0x74, 0x49, 0x50, 0x43] [1, 0, 0, 0, 7]
  obtain ⟨ipc, hr⟩ := hsync.2 (by decide)
  exact ⟨ipc, hr, hsync.1 ipc hr⟩

end Ipc

end OnlineAccounts
