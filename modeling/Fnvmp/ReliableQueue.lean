import Fnvmp.Enet
import Mathlib.Data.List.Forall2

/-!
# The receiving half of a reliable channel

The code knows a command by sixteen bits. As long as what arrives is not too far from
what was handed on last, the queue behaves as if it held the commands' full numbers:
sorted, each once, and handed on without a gap.
-/

namespace Fnvmp.Enet

open Protocol SequenceWindow

variable {α : Type} {packets : List α} {c d t a n : ℕ}

/-- The number and the packet are those of the `n`-th packet of the channel, from one on. -/
def Numbered (packets : List α) (number : ℕ) (packet : α) (n : ℕ) : Prop :=
  number = n % uint16Size ∧ 0 < n ∧ packets[n - 1]? = some packet

theorem Numbered.append {number : ℕ} {packet : α} (h : Numbered packets number packet n)
    (more : List α) : Numbered (packets ++ more) number packet n := by
  obtain ⟨hnumber, hpos, hpacket⟩ := h
  refine ⟨hnumber, hpos, ?_⟩
  rw [List.getElem?_append_left (List.getElem?_eq_some_iff.mp hpacket).1]
  exact hpacket

/-- The commands of a queue beside their full numbers. -/
def Tracks (packets : List α) (c : ℕ) : List (ReliableCommand α) → List ℕ → Prop :=
  List.Forall₂ fun command n =>
    command.channelID = c ∧ Numbered packets command.reliableSequenceNumber command.data n

theorem Tracks.append_packets {queue : List (ReliableCommand α)} {q : List ℕ}
    (h : Tracks packets c queue q) (more : List α) : Tracks (packets ++ more) c queue q :=
  List.Forall₂.imp (fun _ _ hx => ⟨hx.1, hx.2.append more⟩) h

/-- `n` lies ahead of `d`, by less than a turn. -/
def Ahead (d n : ℕ) : Prop := d < n ∧ n < d + uint16Size

/-! ## Finding the place -/

/-- Below the reader's number stand the numbers of the next turn. -/
theorem number_turn (h : Ahead d n) :
    d % uint16Size ≤ n % uint16Size ∧ n % uint16Size = d % uint16Size + (n - d) ∨
      n % uint16Size < d % uint16Size ∧ n % uint16Size + uint16Size = d % uint16Size + (n - d) := by
  have hlift := lift_ahead h.1.le h.2
  unfold lift at hlift
  split at hlift
  · exact .inr ⟨‹_›, hlift⟩
  · exact .inl ⟨not_lt.mp ‹_›, hlift⟩

theorem placeFromBack_cons {command incoming : ReliableCommand α} {rest : List (ReliableCommand α)}
    (hd : Ahead d a) (hn : Ahead d n) (hcommand : command.reliableSequenceNumber = a % uint16Size)
    (hincoming : incoming.reliableSequenceNumber = n % uint16Size) :
    placeFromBack (d % uint16Size) command (incoming :: rest) =
      if n < a then some (command :: incoming :: rest)
      else if n = a then none
      else (placeFromBack (d % uint16Size) command rest).map (incoming :: ·) := by
  have hAlt := Nat.mod_lt a (show 0 < uint16Size by decide)
  have hNlt := Nat.mod_lt n (show 0 < uint16Size by decide)
  simp only [placeFromBack, hcommand, hincoming]
  rcases number_turn hd with hA | hA <;> rcases number_turn hn with hturn | hturn <;>
    obtain ⟨hda, -⟩ := hd <;> obtain ⟨hdn, -⟩ := hn <;> split_ifs <;> first | rfl | omega

/-- A command is put in its place, unless it is there already. The queue is reversed. -/
theorem placeFromBack_spec {command : ReliableCommand α} {queue : List (ReliableCommand α)}
    {q : List ℕ} (hchannel : command.channelID = c)
    (hcommand : Numbered packets command.reliableSequenceNumber command.data a) (hd : Ahead d a)
    (htracks : Tracks packets c queue q) (hsorted : q.Pairwise (· > ·)) (hq : ∀ n ∈ q, Ahead d n) :
    match placeFromBack (d % uint16Size) command queue with
    | none => a ∈ q
    | some queue' => ∃ q', Tracks packets c queue' q' ∧ q'.Pairwise (· > ·) ∧
        ∀ n, n ∈ q' ↔ n = a ∨ n ∈ q := by
  induction htracks with
  | nil => exact ⟨[a], .cons ⟨hchannel, hcommand⟩ .nil, List.pairwise_singleton _ _, by simp⟩
  | @cons incoming n rest q hhead htail ih =>
    rw [List.pairwise_cons] at hsorted
    have hn := hq n List.mem_cons_self
    rw [placeFromBack_cons hd hn hcommand.1 hhead.2.1]
    rcases Nat.lt_trichotomy n a with hlt | rfl | hgt
    · rw [if_pos hlt]
      refine ⟨a :: n :: q, .cons ⟨hchannel, hcommand⟩ (.cons hhead htail), ?_, by simp⟩
      refine List.pairwise_cons.mpr ⟨fun m hm => ?_, List.pairwise_cons.mpr hsorted⟩
      rcases List.mem_cons.mp hm with rfl | hm
      · exact hlt
      · exact (hsorted.1 m hm).trans hlt
    · rw [if_neg (Nat.lt_irrefl n), if_pos rfl]
      exact List.mem_cons_self
    · rw [if_neg hgt.le.not_gt, if_neg hgt.ne']
      have ih := ih hsorted.2 fun m hm => hq m (List.mem_cons_of_mem _ hm)
      cases hplace : placeFromBack (d % uint16Size) command rest with
      | none =>
        rw [hplace] at ih
        exact List.mem_cons_of_mem _ ih
      | some queue' =>
        rw [hplace] at ih
        obtain ⟨q', htracks', hsorted', hmem⟩ := ih
        refine ⟨n :: q', .cons hhead htracks', List.pairwise_cons.mpr ⟨fun m hm => ?_, hsorted'⟩, ?_⟩
        · rcases (hmem m).mp hm with rfl | hm
          · exact hgt
          · exact hsorted.1 m hm
        · intro m
          simp only [List.mem_cons, hmem m]
          tauto

/-! ## Handing on -/

/-- What is handed on are the next packets of the channel; what stays is not the next. -/
theorem dispatchLoop_spec {queue : List (ReliableCommand α)} {q : List ℕ}
    (htracks : Tracks packets c queue q) (hsorted : q.Pairwise (· < ·)) (hq : ∀ n ∈ q, Ahead d n) :
    ∃ k moved left q', dispatchLoop (d % uint16Size) queue = ((d + k) % uint16Size, moved, left) ∧
      moved.map ReliableCommand.post = ((packets.drop d).take k).map (Post.mk .reliable c) ∧
      Tracks packets c left q' ∧ q'.Pairwise (· < ·) ∧
      (∀ n ∈ q', d + k + 1 < n) ∧ ∀ n, n ∈ q ↔ n ∈ q' ∨ d < n ∧ n ≤ d + k := by
  induction htracks generalizing d with
  | nil => exact ⟨0, [], [], [], rfl, by simp, .nil, .nil, by simp, by simp⟩
  | @cons incoming n rest q hhead htail ih =>
    obtain ⟨hchannel, hnumber, hpos, hpacket⟩ := hhead
    rw [List.pairwise_cons] at hsorted
    have hn := hq n List.mem_cons_self
    unfold Ahead at hn hq
    by_cases hnext : n = d + 1
    · subst hnext
      obtain ⟨k, moved, left, q', hloop, hmoved, htracks', hsorted', hgt, hmem⟩ :=
        ih (d := d + 1) hsorted.2 fun m hm =>
          ⟨hsorted.1 m hm, by have := (hq m (List.mem_cons_of_mem _ hm)).2; omega⟩
      have hlt := (List.getElem?_eq_some_iff.mp hpacket).1
      refine ⟨k + 1, incoming :: moved, left, q', ?_, ?_, htracks', hsorted', ?_, ?_⟩
      · have hnot : ¬(d + 1) % uint16Size ≠ (d % uint16Size + 1) % uint16Size := by
          rw [Nat.mod_add_mod]
          exact fun h => h rfl
        simp only [dispatchLoop, hnumber, if_neg hnot, hloop]
        rw [show d + 1 + k = d + (k + 1) by omega]
      · have hdrop : packets.drop d = incoming.data :: packets.drop (d + 1) := by
          rw [List.drop_eq_getElem_cons (by omega), List.cons.injEq]
          exact ⟨(List.getElem?_eq_some_iff.mp hpacket).2, rfl⟩
        rw [List.map_cons, hmoved, hdrop, List.take_succ_cons, List.map_cons, ReliableCommand.post,
          hchannel]
      · intro m hm
        have := hgt m hm
        omega
      · intro m
        rw [List.mem_cons, hmem m]
        constructor
        · rintro (rfl | hm | ⟨hlt, hle⟩)
          · exact .inr (by omega)
          · exact .inl hm
          · exact .inr (by omega)
        · rintro (hm | ⟨hlt, hle⟩)
          · exact .inr (.inl hm)
          · obtain rfl | hne := eq_or_ne m (d + 1)
            · exact .inl rfl
            · exact .inr (.inr (by omega))
    · have hnot : n % uint16Size ≠ (d % uint16Size + 1) % uint16Size := by
        rw [Nat.mod_add_mod]
        intro h
        exact hnext (mod_inj _ (by omega) (by omega) h)
      refine ⟨0, [], incoming :: rest, n :: q, ?_, by simp,
        .cons ⟨hchannel, hnumber, hpos, hpacket⟩ htail, List.pairwise_cons.mpr hsorted, ?_, ?_⟩
      · simp only [dispatchLoop, hnumber, if_pos hnot, Nat.add_zero]
      · intro m hm
        rcases List.mem_cons.mp hm with rfl | hm
        · omega
        · have := hsorted.1 m hm
          omega
      · intro m
        have : ¬(d < m ∧ m ≤ d + 0) := by omega
        simp only [this, or_false]

/-! ## One arrival -/

/-- The channel has handed on the first `d` packets and holds those numbered in `q`; none past
the `t`-th is on its way. -/
structure Receives (packets : List α) (r : Receiver α) (c t d : ℕ) (q : List ℕ) : Prop where
  low : (r.channels c).incomingReliableSequenceNumber = d % uint16Size
  tracks : Tracks packets c (r.channels c).incomingReliableCommands q
  sorted : q.Pairwise (· < ·)
  ahead : ∀ n ∈ q, d + 1 < n ∧ n ≤ t ∧
    n / peerReliableWindowSize ≤ d / peerReliableWindowSize + 6
  le : d ≤ t

/-- Whether the `n`-th packet got through, handed on or not. -/
def Got (d : ℕ) (q : List ℕ) (n : ℕ) : Prop := n ≤ d ∨ n ∈ q

/-- What a receiver keeps of all that is not the channel `c` or its hand-over. -/
structure SameBut (c : ℕ) (r r' : Receiver α) : Prop where
  channelCount : r'.channelCount = r.channelCount
  channels : ∀ c', c' ≠ c → r'.channels c' = r.channels c'
  group : r'.incomingUnsequencedGroup = r.incomingUnsequencedGroup
  window : r'.unsequencedWindow = r.unsequencedWindow

theorem SameBut.rfl {r : Receiver α} : SameBut c r r := ⟨.refl _, fun _ _ => .refl _, .refl _, .refl _⟩

theorem window_ahead (hle : d ≤ n) (hlt : n < d + uint16Size) :
    windowFrom peerReliableWindows peerReliableWindowSize (d % uint16Size) (n % uint16Size) +
        d / peerReliableWindowSize =
      d % uint16Size / peerReliableWindowSize + n / peerReliableWindowSize :=
  windowFrom_ahead (by decide) hle hlt

theorem window_behind (hlt : n < d) (hle : d ≤ n + uint16Size) :
    windowFrom peerReliableWindows peerReliableWindowSize (d % uint16Size) (n % uint16Size) +
        d / peerReliableWindowSize =
      d % uint16Size / peerReliableWindowSize + peerReliableWindows + n / peerReliableWindowSize :=
  windowFrom_behind (by decide) hlt hle

/-- Seven windows on is still less than a turn. -/
theorem ahead_of_window (hlt : d < n)
    (hnear : n / peerReliableWindowSize ≤ d / peerReliableWindowSize + 7) : Ahead d n := by
  unfold peerReliableWindowSize at hnear
  unfold Ahead uint16Size
  omega

section

variable {r : Receiver α} {q : List ℕ} {command : ReliableCommand α}

theorem dispatchIncomingReliableCommands_spec {q : List ℕ}
    (hlow : (r.channels c).incomingReliableSequenceNumber = d % uint16Size)
    (htracks : Tracks packets c (r.channels c).incomingReliableCommands q)
    (hsorted : q.Pairwise (· < ·)) (hle : d ≤ t)
    (hq : ∀ n ∈ q, d < n ∧ n ≤ t ∧ n / peerReliableWindowSize ≤ d / peerReliableWindowSize + 6) :
    ∃ d' q', Receives packets (dispatchIncomingReliableCommands r c) c t d' q' ∧ d ≤ d' ∧
      (dispatchIncomingReliableCommands r c).dispatchedCommands =
        r.dispatchedCommands ++ ((packets.drop d).take (d' - d)).map (Post.mk .reliable c) ∧
      d' / peerReliableWindowSize ≤ d / peerReliableWindowSize + 6 ∧
      SameBut c r (dispatchIncomingReliableCommands r c) ∧ ∀ n, Got d q n ↔ Got d' q' n := by
  obtain ⟨k, moved, left, q', hloop, hmoved, htracks', hsorted', hgt, hmem⟩ :=
    dispatchLoop_spec htracks hsorted fun n hn =>
      ahead_of_window (hq n hn).1 ((hq n hn).2.2.trans (by omega))
  have hlast : d + k ≤ t ∧
      (d + k) / peerReliableWindowSize ≤ d / peerReliableWindowSize + 6 := by
    obtain rfl | hpos := Nat.eq_zero_or_pos k
    · exact ⟨hle, Nat.le_add_right _ 6⟩
    · exact (hq (d + k) ((hmem _).mpr (.inr ⟨by omega, le_rfl⟩))).2
  have hdispatch : dispatchIncomingReliableCommands r c = { r with
      channels := Function.update r.channels c
        { incomingReliableSequenceNumber := (d + k) % uint16Size, incomingReliableCommands := left }
      dispatchedCommands := r.dispatchedCommands ++ moved.map ReliableCommand.post } := by
    simp only [dispatchIncomingReliableCommands, hlow, hloop]
  rw [hdispatch]
  refine ⟨d + k, q', ?_, by omega, ?_, hlast.2, ?_, fun n => ?_⟩
  · refine ⟨by simp, by simpa using htracks', hsorted', fun n hn => ?_, hlast.1⟩
    obtain ⟨-, hnt, hwindow⟩ := hq n ((hmem n).mpr (.inl hn))
    exact ⟨hgt n hn, hnt, hwindow.trans
      (Nat.add_le_add_right (Nat.div_le_div_right (Nat.le_add_right d k)) 6)⟩
  · rw [Nat.add_sub_cancel_left, hmoved]
  · exact ⟨rfl, fun c' hne => Function.update_of_ne hne _ _, rfl, rfl⟩
  · unfold Got
    rw [hmem n]
    have : d < n ∧ n ≤ d + k ∨ n ≤ d ↔ n ≤ d + k := by omega
    tauto

/-- A command that was handed on is not queued again, up to nine windows later. -/
theorem queueIncomingCommand_behind (h : Receives packets r c t d q)
    (hchannel : command.channelID = c)
    (hnumber : command.reliableSequenceNumber = a % uint16Size) (hle : a ≤ d)
    (hfresh : d / peerReliableWindowSize ≤ a / peerReliableWindowSize + 9) (full : Bool) :
    queueIncomingCommand r command full = some r := by
  simp only [queueIncomingCommand, hchannel, h.low, hnumber]
  split
  · rfl
  · rename_i hwindow
    obtain rfl | hlt := hle.eq_or_lt
    · rw [if_pos rfl]
    · have hfrom := window_behind hlt
        (by unfold peerReliableWindowSize at hfresh; unfold uint16Size; omega)
      have hdiv := Nat.div_le_div_right (c := peerReliableWindowSize) hlt.le
      unfold peerReliableWindows peerFreeReliableWindows at *
      omega

/-- Seven windows ahead is too far. -/
theorem queueIncomingCommand_far (h : Receives packets r c t d q)
    (hchannel : command.channelID = c)
    (hnumber : command.reliableSequenceNumber = a % uint16Size) (hlt : d < a)
    (hfar : a / peerReliableWindowSize = d / peerReliableWindowSize + 7) (full : Bool) :
    queueIncomingCommand r command full = some r := by
  have hahead := ahead_of_window hlt hfar.le
  have hfrom := window_ahead hahead.1.le hahead.2
  simp only [queueIncomingCommand, hchannel, h.low, hnumber]
  rw [if_pos]
  unfold peerReliableWindows peerFreeReliableWindows at *
  omega

theorem queueIncomingCommand_near (h : Receives packets r c t d q)
    (hchannel : command.channelID = c)
    (hnumber : command.reliableSequenceNumber = a % uint16Size) (hlt : d < a)
    (hnear : a / peerReliableWindowSize ≤ d / peerReliableWindowSize + 6) (full : Bool) :
    queueIncomingCommand r command full =
      match placeFromBack (d % uint16Size) command
          (r.channels c).incomingReliableCommands.reverse with
      | none => some r
      | some queue =>
        if full then none
        else some (dispatchIncomingReliableCommands { r with
          channels := Function.update r.channels c
            { incomingReliableSequenceNumber := d % uint16Size
              incomingReliableCommands := queue.reverse } } c) := by
  have hahead := ahead_of_window hlt (hnear.trans (by omega))
  have hfrom := window_ahead hahead.1.le hahead.2
  have hdiv := Nat.div_le_div_right (c := peerReliableWindowSize) hlt.le
  have hne : a % uint16Size ≠ d % uint16Size := fun heq => hlt.ne'
    (mod_inj _ hahead.2 (by unfold uint16Size; omega) heq)
  simp only [queueIncomingCommand, hchannel, h.low, hnumber]
  refine (if_neg ?_).trans ((if_neg hne).trans ?_)
  · unfold peerReliableWindows peerFreeReliableWindows at *
    omega
  · rfl

/-- How an arrival leaves the channel: nothing that got through is lost, and what is handed on
are the channel's next packets. -/
structure Advances (packets : List α) (c t : ℕ) (r r' : Receiver α) (d d' : ℕ) (q q' : List ℕ) :
    Prop where
  receives : Receives packets r' c t d' q'
  le : d ≤ d'
  near : d' / peerReliableWindowSize ≤ d / peerReliableWindowSize + 6
  dispatched : r'.dispatchedCommands =
    r.dispatchedCommands ++ ((packets.drop d).take (d' - d)).map (Post.mk .reliable c)
  same : SameBut c r r'
  got : ∀ n, Got d q n → Got d' q' n

theorem Receives.advances (h : Receives packets r c t d q) : Advances packets c t r r d d q q :=
  ⟨h, le_rfl, Nat.le_add_right _ 6, by simp, .rfl, fun _ hn => hn⟩

/-- What the queue makes of a command that is no more than seven windows ahead and no more than
nine behind: it gets through, unless it is seven ahead. -/
theorem queueIncomingCommand_spec (h : Receives packets r c t d q)
    (hchannel : command.channelID = c)
    (hcommand : Numbered packets command.reliableSequenceNumber command.data a) (hat : a ≤ t)
    (hnear : a / peerReliableWindowSize ≤ d / peerReliableWindowSize + 7)
    (hfresh : d / peerReliableWindowSize ≤ a / peerReliableWindowSize + 9) {full : Bool}
    {r' : Receiver α} (hr' : queueIncomingCommand r command full = some r') :
    ∃ d' q', Advances packets c t r r' d d' q q' ∧ (d < a ∨ d' = d) ∧
      (Got d' q' a ∨ d' = d ∧ a / peerReliableWindowSize = d / peerReliableWindowSize + 7) := by
  rcases le_or_gt a d with hle | hlt
  · rw [queueIncomingCommand_behind h hchannel hcommand.1 hle hfresh] at hr'
    cases hr'
    exact ⟨d, q, h.advances, .inr rfl, .inl (.inl hle)⟩
  obtain hnear | hfar := Nat.lt_or_eq_of_le hnear
  swap
  · rw [queueIncomingCommand_far h hchannel hcommand.1 hlt hfar] at hr'
    cases hr'
    exact ⟨d, q, h.advances, .inr rfl, .inr ⟨rfl, hfar⟩⟩
  have hnear := Nat.le_of_lt_succ hnear
  rw [queueIncomingCommand_near h hchannel hcommand.1 hlt hnear] at hr'
  have hplace := placeFromBack_spec hchannel hcommand (ahead_of_window hlt (by omega))
    (List.rel_reverse h.tracks) (List.pairwise_reverse.mpr h.sorted) fun n hn => by
      obtain ⟨hdn, -, hwindow⟩ := h.ahead n (List.mem_reverse.mp hn)
      exact ahead_of_window (by omega) (by omega)
  split at hr'
  · rename_i hnone
    rw [hnone] at hplace
    cases hr'
    exact ⟨d, q, h.advances, .inr rfl, .inl (.inr (List.mem_reverse.mp hplace))⟩
  · rename_i queue hsome
    rw [hsome] at hplace
    obtain ⟨p, htracks, hsorted, hmem⟩ := hplace
    split at hr'
    · cases hr'
    · cases hr'
      obtain ⟨d', q', hreceives, hle, hdispatched, hbound, hsame, hgot⟩ :=
        dispatchIncomingReliableCommands_spec (c := c) (d := d) (t := t) (q := p.reverse)
          (r := { r with
            channels := Function.update r.channels c
              { incomingReliableSequenceNumber := d % uint16Size
                incomingReliableCommands := queue.reverse } })
          (by simp only [Function.update_self])
          (by simp only [Function.update_self]; exact List.rel_reverse htracks)
          (List.pairwise_reverse.mpr hsorted) h.le fun n hn => by
            rcases (hmem n).mp (List.mem_reverse.mp hn) with rfl | hn
            · exact ⟨hlt, hat, hnear⟩
            · obtain ⟨hdn, hnt, hwindow⟩ := h.ahead n (List.mem_reverse.mp hn)
              exact ⟨by omega, hnt, hwindow⟩
      refine ⟨d', q', ⟨hreceives, hle, hbound, hdispatched, ?_, fun n hn => (hgot n).mp ?_⟩, .inl hlt,
        .inl ((hgot a).mp (.inr (List.mem_reverse.mpr ((hmem a).mpr (.inl rfl)))))⟩
      · refine ⟨hsame.channelCount, fun c' hne => ?_, hsame.group, hsame.window⟩
        rw [hsame.channels c' hne]
        exact Function.update_of_ne hne _ _
      · refine hn.imp_right fun hn => ?_
        exact List.mem_reverse.mpr ((hmem n).mpr (.inr (List.mem_reverse.mpr hn)))

/-- A command is acknowledged only once it got through, and not when it is far behind. -/
theorem queueAcknowledgement_spec (h : Receives packets r c t d q)
    (hchannel : command.channelID = c)
    (hnumber : command.reliableSequenceNumber = a % uint16Size)
    (hnear : a / peerReliableWindowSize ≤ d / peerReliableWindowSize + 7)
    (hfresh : d / peerReliableWindowSize ≤ a / peerReliableWindowSize + 9) :
    queueAcknowledgement r command ↔
      a / peerReliableWindowSize ≤ d / peerReliableWindowSize + 6 ∧
        d / peerReliableWindowSize ≤ a / peerReliableWindowSize + 7 := by
  simp only [queueAcknowledgement, hchannel, h.low, hnumber, Bool.not_eq_true',
    Bool.and_eq_false_iff, decide_eq_false_iff_not]
  rcases le_or_gt d a with hle | hlt
  · have hfrom := window_ahead hle
      (by unfold peerReliableWindowSize at hnear; unfold uint16Size; omega)
    have hdiv := Nat.div_le_div_right (c := peerReliableWindowSize) hle
    unfold peerReliableWindows peerFreeReliableWindows at *
    omega
  · have hfrom := window_behind hlt
      (by unfold peerReliableWindowSize at hfresh; unfold uint16Size; omega)
    have hdiv := Nat.div_le_div_right (c := peerReliableWindowSize) hlt.le
    unfold peerReliableWindows peerFreeReliableWindows at *
    omega

/-- One arrival. An acknowledgement goes out only for a packet that got through, and soon. -/
theorem handleSendReliable_spec (h : Receives packets r c t d q) (hchannel : command.channelID = c)
    (hcommand : Numbered packets command.reliableSequenceNumber command.data a) (hat : a ≤ t)
    (hnear : a / peerReliableWindowSize ≤ d / peerReliableWindowSize + 7)
    (hfresh : d / peerReliableWindowSize ≤ a / peerReliableWindowSize + 9) (full : Bool) :
    ∃ d' q', Advances packets c t r (handleSendReliable r command full).1 d d' q q' ∧
      ∀ ack, (handleSendReliable r command full).2 = some ack →
        ack = ⟨c, a % uint16Size⟩ ∧ Got d' q' a ∧
          d' / peerReliableWindowSize ≤ a / peerReliableWindowSize + 7 := by
  unfold handleSendReliable
  split
  · exact ⟨d, q, h.advances, by simp⟩
  split
  · exact ⟨d, q, h.advances, by simp⟩
  · rename_i r' hr'
    obtain ⟨d', q', hadvances, hlt, hgot⟩ :=
      queueIncomingCommand_spec h hchannel hcommand hat hnear hfresh hr'
    have hwindows := Nat.div_le_div_right (c := peerReliableWindowSize) hadvances.le
    have hack := queueAcknowledgement_spec hadvances.receives hchannel hcommand.1
      (hnear.trans (Nat.add_le_add_right hwindows 7)) (by
        rcases hlt with hlt | rfl
        · have := Nat.div_le_div_right (c := peerReliableWindowSize) hlt.le
          have := hadvances.near
          omega
        · exact hfresh)
    split
    · rename_i hqueued
      rw [hack] at hqueued
      refine ⟨d', q', hadvances, fun ack heq => ?_⟩
      obtain rfl := Option.some.inj heq
      refine ⟨by rw [hchannel, hcommand.1], ?_, hqueued.2⟩
      rcases hgot with hgot | ⟨rfl, hfar⟩
      · exact hgot
      · omega
    · exact ⟨d', q', hadvances, by simp⟩

/-- A receiver with room takes what is not too far ahead. -/
theorem handleSendReliable_accepts (h : Receives packets r c t d q)
    (hchannel : command.channelID = c)
    (hcommand : Numbered packets command.reliableSequenceNumber command.data a) (hat : a ≤ t)
    (hnear : a / peerReliableWindowSize ≤ d / peerReliableWindowSize + 6)
    (hfresh : d / peerReliableWindowSize ≤ a / peerReliableWindowSize + 9)
    (hcount : c < r.channelCount) :
    ∃ d' q', Advances packets c t r (handleSendReliable r command false).1 d d' q q' ∧
      Got d' q' a := by
  obtain ⟨r', hr'⟩ : ∃ r', queueIncomingCommand r command false = some r' := by
    unfold queueIncomingCommand
    dsimp only
    split
    · exact ⟨_, rfl⟩
    split
    · exact ⟨_, rfl⟩
    split
    · exact ⟨_, rfl⟩
    · exact ⟨_, rfl⟩
  obtain ⟨d', q', hadvances, -, hgot⟩ :=
    queueIncomingCommand_spec h hchannel hcommand hat (hnear.trans (Nat.le_succ _)) hfresh hr'
  refine ⟨d', q', ?_, hgot.resolve_right fun hfar => by omega⟩
  unfold handleSendReliable
  rw [if_neg (hchannel ▸ hcount.not_ge), hr']
  dsimp only
  split <;> exact hadvances

/-- What was handed on already is acknowledged again and otherwise ignored. -/
theorem handleSendReliable_again (h : Receives packets r c t d q)
    (hchannel : command.channelID = c)
    (hnumber : command.reliableSequenceNumber = a % uint16Size) (hle : a ≤ d)
    (hfresh : d / peerReliableWindowSize ≤ a / peerReliableWindowSize + 7)
    (hcount : c < r.channelCount) (full : Bool) :
    handleSendReliable r command full = (r, some ⟨c, a % uint16Size⟩) := by
  have hdiv := Nat.div_le_div_right (c := peerReliableWindowSize) hle
  have hack := (queueAcknowledgement_spec h hchannel hnumber (by omega) (by omega)).mpr
    ⟨by omega, hfresh⟩
  unfold handleSendReliable
  rw [if_neg (hchannel ▸ hcount.not_ge),
    queueIncomingCommand_behind h hchannel hnumber hle (by omega)]
  dsimp only
  rw [if_pos hack, hchannel, hnumber]

end

end Fnvmp.Enet
