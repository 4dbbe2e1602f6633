import Fnvmp.FireRelay

/-!
# Every shot is relayed once and in order

The invariant has two sides that meet in the packets of one connection. At the server the
shots that went out are the shots that were noted, and those of one player end with the
last one handled for as long as both ends are registered. At the client nothing but the
packets of its line becomes a fire event.
-/

namespace Fnvmp.FireRelay

open PackedCodec Protocol Server Net Delivery Membership

variable {l l' : System} {p q : Peer} {a b n : Nat} {id : UInt32} {s s' : Session}
  {line new : List (List UInt8)} {shots : List Shot}

/-- Player `a` is registered under `id`, and `n` of its shots have been handled. -/
def Active (l : System) (a : Nat) (id : UInt32) (n : Nat) : Prop :=
  ∃ p s, l.sessions p = some s ∧ s.player = a ∧ idsOf l.server.players p = some id ∧
    s.played id = n

/-- The client's side of a connection. -/
structure Linked (s : Session) : Prop where
  client : s.net.client = true
  queue : s.taken ++ s.net.fireEvents = (on .gameEvents s.got).filterMap fireOf
  arrived : on .gameEvents s.got <+: on .gameEvents s.sent
  quiet : ∀ channel data, (channel, data) ∈ s.sent → channel ≠ .gameEvents → fireOf data = none
  fired : ∀ data ∈ s.fired, ∃ id, data = playerFire id
  handled : s.handled ≤ s.fired.length

/-- The server's side: what went out on the line to player `b` at pointer `q`. -/
structure Relayed (l : System) (q : Peer) (b : Nat) (line : List (List UInt8))
    (shots : List Shot) : Prop where
  order : (line.filterMap fireOf).map some = shots.map fun x => l.ids[x.player]?
  own : ∀ x ∈ shots, x.player ≠ b
  block : ∀ a, ∃ i n, positions a shots = List.range' i n ∧
    (n ≠ 0 → q ∈ l.server.players.keys → ∀ id m, Active l a id m → m = i + n)
  silent : line.Pairwise fun data later => ∀ id,
    ServerMessage.parse data = some (.playerDisconnect id) →
      ServerMessage.parse later ≠ some (.remoteFire id)
  gone : ∀ data ∈ line, ∀ id, ServerMessage.parse data = some (.playerDisconnect id) →
    ∃ a, l.ids[a]? = some id ∧ ∀ id' n, ¬ Active l a id' n

structure Sound (l : System) : Prop where
  ids : l.ids = (List.range l.ids.length).map fun i => UInt32.ofNat (i + 1)
  counter : l.server.nextEntityId = UInt32.ofNat (l.ids.length + 1)
  player : ∀ p s, l.sessions p = some s → s.player < l.ids.length
  one : ∀ p q s t, l.sessions p = some s → l.sessions q = some t → s.player = t.player → p = q
  seated : ∀ p id, idsOf l.server.players p = some id →
    ∃ s, l.sessions p = some s ∧ l.ids[s.player]? = some id
  linked : ∀ p s, l.sessions p = some s → Linked s
  relayed : ∀ p s, l.sessions p = some s →
    Relayed l p s.player (on .gameEvents s.sent) s.shots

/-! ## What a connection has heard -/

theorem Linked.heard (h : Linked s) : s.heard = (on .gameEvents s.sent).filterMap fireOf := by
  obtain ⟨rest, hrest⟩ := h.arrived
  have hinFlight : s.inFlight = rest := by
    rw [Session.inFlight, ← hrest, List.drop_left]
  rw [Session.heard, h.queue, hinFlight, ← hrest, List.filterMap_append]

theorem length_positions (a : Nat) (shots : List Shot) :
    (positions a shots).length = shots.countP fun x => x.player = a := by
  simp [positions, List.countP_eq_length_filter]

theorem Sound.nodup (h : Sound l) (hids : l.ids.length ≤ 2 ^ 32) : l.ids.Nodup := by
  rw [h.ids]
  refine List.Nodup.map_on (fun i hi j hj heq => ?_) List.nodup_range
  have hnat := congrArg UInt32.toNat heq
  simp only [UInt32.toNat_ofNat'] at hnat
  rw [List.mem_range] at hi hj
  omega

/-- As long as no id was given out twice, the relay is faithful. -/
theorem Sound.faithful (h : Sound l) (hnodup : l.ids.Nodup) (hs : l.sessions p = some s) :
    Faithful l s := by
  have hheard := (h.linked p s hs).heard
  have hrelayed := h.relayed p s hs
  have horder := hrelayed.order
  rw [← hheard] at horder
  refine ⟨horder, fun a id hid => ?_, fun a => ?_, ?_, hrelayed.silent⟩
  · have hcount : s.heard.count id = (s.heard.map some).count (some id) :=
      (List.count_map_of_injective _ some (Option.some_injective _) id).symm
    rw [hcount, horder, length_positions, List.count, List.countP_map]
    refine List.countP_congr fun x _ => ?_
    simp only [Function.comp_apply, beq_iff_eq, decide_eq_true_eq]
    constructor
    · intro hx
      exact (List.getElem?_inj (List.getElem?_eq_some_iff.mp hx).1 hnodup).mp (hx.trans hid.symm)
    · rintro rfl
      exact hid
  · obtain ⟨i, n, hblock, -⟩ := hrelayed.block a
    exact ⟨i, n, hblock⟩
  · rw [← List.length_eq_zero_iff, length_positions, List.countP_eq_zero]
    intro x hx
    simpa using hrelayed.own x hx

/-- A step that gives out no id keeps the seats, whatever else becomes of the connections. -/
theorem Sound.kept (h : Sound l) (hids : l'.ids = l.ids)
    (hnext : l'.server.nextEntityId = l.server.nextEntityId)
    (hold : ∀ q s', l'.sessions q = some s' → ∃ s, l.sessions q = some s ∧ s'.player = s.player)
    (hseat : ∀ q id, idsOf l'.server.players q = some id →
      idsOf l.server.players q = some id ∧ (l'.sessions q).isSome)
    (hlinked : ∀ q s', l'.sessions q = some s' → Linked s')
    (hrelayed : ∀ q s', l'.sessions q = some s' →
      Relayed l' q s'.player (on .gameEvents s'.sent) s'.shots) : Sound l' := by
  refine ⟨hids ▸ h.ids, hnext.trans (hids ▸ h.counter), fun q s' hs' => ?_,
    fun q q' s' t' hs' ht' heq => ?_, fun q id hq => ?_, hlinked, hrelayed⟩
  · obtain ⟨s, hs, hplayer⟩ := hold q s' hs'
    rw [hplayer, hids]
    exact h.player q s hs
  · obtain ⟨s, hs, hplayer⟩ := hold q s' hs'
    obtain ⟨t, ht, hplayer'⟩ := hold q' t' ht'
    exact h.one q q' s t hs ht (by rw [← hplayer, ← hplayer', heq])
  · obtain ⟨hq, hsome⟩ := hseat q id hq
    obtain ⟨s', hs'⟩ := Option.isSome_iff_exists.mp hsome
    obtain ⟨s, hs, hid⟩ := h.seated q id hq
    obtain ⟨t, ht, hplayer⟩ := hold q s' hs'
    cases hs.symm.trans ht
    exact ⟨s', hs', by rw [hplayer, hids]; exact hid⟩

/-- The player at a pointer is registered under the id it was given. -/
theorem Sound.named (h : Sound l) (hs : l.sessions p = some s)
    (hid : idsOf l.server.players p = some id) : l.ids[s.player]? = some id := by
  obtain ⟨t, ht, hid⟩ := h.seated p id hid
  cases hs.symm.trans ht
  exact hid

/-! ## What goes out on a line -/

/-- A player some of whose shots were noted was counted before. -/
theorem Relayed.counted (h : Relayed l q b line shots) (hne : positions a shots ≠ []) :
    a < l.ids.length := by
  obtain ⟨i, hi⟩ := List.exists_mem_of_ne_nil _ hne
  obtain ⟨x, hx, -⟩ := List.mem_map.mp hi
  obtain ⟨hx, hplayer⟩ := List.mem_filter.mp hx
  have hmem := List.mem_map_of_mem (f := fun x => l.ids[x.player]?) hx
  rw [← h.order] at hmem
  obtain ⟨id, -, hid⟩ := List.mem_map.mp hmem
  rw [of_decide_eq_true hplayer] at hid
  exact (List.getElem?_eq_some_iff.mp hid.symm).1

/-- An id once given out stays with its player. -/
theorem getElem?_extend {ids ids' : List UInt32} (hids : ids <+: ids') (h : ids[a]? = some id) :
    ids'[a]? = some id := by
  obtain ⟨more, rfl⟩ := hids
  rw [List.getElem?_append_left (List.getElem?_eq_some_iff.mp h).1]
  exact h

theorem order_extend {ids ids' heard : List UInt32} (hids : ids <+: ids')
    (h : heard.map some = shots.map fun x => ids[x.player]?) :
    heard.map some = shots.map fun x => ids'[x.player]? := by
  rw [h]
  refine List.map_congr_left fun x hx => ?_
  have hmem := List.mem_map_of_mem (f := fun x => ids[x.player]?) hx
  rw [← h] at hmem
  obtain ⟨id, -, hid⟩ := List.mem_map.mp hmem
  rw [← hid]
  exact (getElem?_extend hids hid.symm).symm

/-- Packets that bring no shot, and bid farewell to nobody who is still there. -/
theorem Relayed.hear (h : Relayed l q b line shots) (hids : l.ids <+: l'.ids)
    (hquiet : ∀ data ∈ new, fireOf data = none)
    (hgone : ∀ data ∈ new, ∀ id, ServerMessage.parse data = some (.playerDisconnect id) →
      ∃ a, l'.ids[a]? = some id ∧ ∀ id' n, ¬ Active l' a id' n)
    (hpresent : ∀ a id n, Active l' a id n → (∃ id n, Active l a id n) ∨ l.ids.length ≤ a)
    (hcount : q ∈ l'.server.players.keys → ∀ a id n, Active l' a id n →
      (q ∈ l.server.players.keys ∧ Active l a id n) ∨ l.ids.length ≤ a ∨ a = b) :
    Relayed l' q b (line ++ new) shots := by
  have hnew : new.filterMap fireOf = [] := List.filterMap_eq_nil_iff.mpr hquiet
  have hquiet' : ∀ data ∈ new, ∀ id, ServerMessage.parse data ≠ some (.remoteFire id) := by
    intro data hdata id hparse
    rw [← fireOf_eq_some, hquiet data hdata] at hparse
    cases hparse
  refine ⟨?_, h.own, fun a => ?_, ?_, fun data hdata id hparse => ?_⟩
  · rw [List.filterMap_append, hnew, List.append_nil]
    exact order_extend hids h.order
  · obtain ⟨i, n, hblock, hlast⟩ := h.block a
    refine ⟨i, n, hblock, fun hn hq id m hactive => ?_⟩
    have hne : positions a shots ≠ [] := by
      rw [hblock]
      simpa using hn
    rcases hcount hq a id m hactive with ⟨hq', hactive'⟩ | hold | rfl
    · exact hlast hn hq' id m hactive'
    · exact absurd (h.counted hne) (not_lt.mpr hold)
    · obtain ⟨j, hj⟩ := List.exists_mem_of_ne_nil _ hne
      obtain ⟨x, hx, -⟩ := List.mem_map.mp hj
      obtain ⟨hx, hplayer⟩ := List.mem_filter.mp hx
      exact absurd (of_decide_eq_true hplayer) (h.own x hx)
  · refine List.pairwise_append.mpr ⟨h.silent, ?_, fun data _ later hlater id _ =>
      hquiet' later hlater id⟩
    exact List.pairwise_of_forall_mem_list fun data _ later hlater id _ => hquiet' later hlater id
  · rcases List.mem_append.mp hdata with hdata | hdata
    · obtain ⟨a, ha, habsent⟩ := h.gone data hdata id hparse
      refine ⟨a, getElem?_extend hids ha, fun id' n hactive => ?_⟩
      rcases hpresent a id' n hactive with ⟨id', n, hactive⟩ | hold
      · exact habsent id' n hactive
      · exact absurd (List.getElem?_eq_some_iff.mp ha).1 (not_lt.mpr hold)
    · exact hgone data hdata id hparse

/-- Nothing new on the line. -/
theorem Relayed.still (h : Relayed l q b line shots) (hids : l.ids <+: l'.ids)
    (hpresent : ∀ a id n, Active l' a id n → (∃ id n, Active l a id n) ∨ l.ids.length ≤ a)
    (hcount : q ∈ l'.server.players.keys → ∀ a id n, Active l' a id n →
      (q ∈ l.server.players.keys ∧ Active l a id n) ∨ l.ids.length ≤ a ∨ a = b) :
    Relayed l' q b line shots := by
  have hheard := h.hear hids (List.forall_mem_nil _) (List.forall_mem_nil _) hpresent hcount
  rwa [List.append_nil] at hheard

theorem positions_append (a : Nat) (shots shots' : List Shot) :
    positions a (shots ++ shots') = positions a shots ++ positions a shots' := by
  simp [positions]

/-- The next shot of a player extends its block. -/
theorem Relayed.extend (h : Relayed l q b line shots) (hq : q ∈ l.server.players.keys)
    (hactive : Active l a id n)
    (hstep : ∀ a' id' n', Active l' a' id' n' →
      a' = a ∧ n' = n + 1 ∨ a' ≠ a ∧ Active l a' id' n') (a' : Nat) :
    ∃ i m, positions a' (shots ++ [⟨a, n⟩]) = List.range' i m ∧
      (m ≠ 0 → ∀ id k, Active l' a' id k → k = i + m) := by
  obtain ⟨i, m, hblock, hlast⟩ := h.block a'
  rw [positions_append, hblock]
  by_cases ha : a' = a
  · subst ha
    have hone : positions a' [⟨a', n⟩] = [n] := by simp [positions]
    rw [hone]
    have hnext : ∀ id k, Active l' a' id k → k = n + 1 := fun id k hactive' =>
      (hstep a' id k hactive').elim And.right fun hne => absurd rfl hne.1
    cases m with
    | zero => exact ⟨n, 1, rfl, fun _ id k hactive' => hnext id k hactive'⟩
    | succ m =>
      have hn := hlast (by simp) hq id n hactive
      refine ⟨i, m + 2, ?_, fun _ id k hactive' => ?_⟩
      · rw [List.range'_1_concat (n := m + 1), hn]
      · rw [hnext id k hactive', hn]
        omega
  · have hnone : positions a' [⟨a, n⟩] = [] := by simp [positions, Ne.symm ha]
    rw [hnone, List.append_nil]
    refine ⟨i, m, rfl, fun hm id' k hactive' => ?_⟩
    rcases hstep a' id' k hactive' with ⟨heq, -⟩ | ⟨-, hactive'⟩
    · exact absurd heq ha
    · exact hlast hm hq id' k hactive'

/-- One more shot of a registered player, which is then one more handled. -/
theorem Relayed.shot (h : Relayed l q b line shots) (hnodup : l.ids.Nodup)
    (hids : l'.ids = l.ids) (hq : q ∈ l.server.players.keys) (hactive : Active l a id n)
    (hid : l.ids[a]? = some id) (hab : a ≠ b)
    (hstep : ∀ a' id' n', Active l' a' id' n' →
      a' = a ∧ n' = n + 1 ∨ a' ≠ a ∧ Active l a' id' n') :
    Relayed l' q b (line ++ [msgEntity.encode ⟨MessageType.remoteFire.code, id⟩])
      (shots ++ [⟨a, n⟩]) := by
  have hparse := ServerMessage.parse_entity .remoteFire id (by decide)
  have hback : ∀ a' id' n', Active l' a' id' n' → ∃ id n, Active l a' id n := by
    intro a' id' n' hactive'
    rcases hstep a' id' n' hactive' with ⟨rfl, -⟩ | ⟨-, hactive'⟩
    · exact ⟨id, n, hactive⟩
    · exact ⟨id', n', hactive'⟩
  refine ⟨?_, ?_, fun a' => ?_, ?_, fun data hdata id' hfarewell => ?_⟩
  · have hnew : fireOf (msgEntity.encode ⟨MessageType.remoteFire.code, id⟩) = some id :=
      fireOf_entity (by decide) id
    simp [hids, hid, hnew, h.order]
  · intro x hx
    rcases List.mem_append.mp hx with hx | hx
    · exact h.own x hx
    · rw [List.mem_singleton.mp hx]
      exact hab
  · obtain ⟨i, m, hblock, hlast⟩ := h.extend hq hactive hstep a'
    exact ⟨i, m, hblock, fun hm _ => hlast hm⟩
  · refine List.pairwise_append.mpr ⟨h.silent, List.pairwise_singleton _ _, ?_⟩
    intro data hdata later hlater id' hfarewell
    rw [List.mem_singleton.mp hlater, hparse]
    rintro ⟨⟩
    -- the player bidden farewell would be the one that just fired
    obtain ⟨a', ha', habsent⟩ := h.gone data hdata id hfarewell
    have heq : a' = a := (List.getElem?_inj (List.getElem?_eq_some_iff.mp ha').1 hnodup).mp
      (ha'.trans hid.symm)
    exact habsent id n (heq ▸ hactive)
  · rcases List.mem_append.mp hdata with hdata | hdata
    · obtain ⟨a', ha', habsent⟩ := h.gone data hdata id' hfarewell
      refine ⟨a', hids ▸ ha', fun id'' n' hactive' => ?_⟩
      obtain ⟨id₀, n₀, hactive₀⟩ := hback a' id'' n' hactive'
      exact habsent id₀ n₀ hactive₀
    · rw [List.mem_singleton.mp hdata, hparse] at hfarewell
      cases hfarewell

/-! ## The client's own steps -/

theorem active_put (hs : l.sessions p = some s) (hplayer : s'.player = s.player)
    (hplayed : ∀ id, idsOf l.server.players p = some id → s'.played id = s.played id)
    (h : Active (l.put p s') a id n) : Active l a id n := by
  obtain ⟨q, t, ht, hpl, hq, hn⟩ := h
  simp only [System.put, Function.update_apply] at ht
  split at ht
  · rename_i heq
    subst heq
    cases ht
    exact ⟨q, s, hs, hplayer ▸ hpl, hq, hplayed id hq ▸ hn⟩
  · exact ⟨q, t, ht, hpl, hq, hn⟩

/-- A step at one end that puts nothing on the line. -/
theorem Sound.put (h : Sound l) (hs : l.sessions p = some s) (hlinked : Linked s')
    (hplayer : s'.player = s.player) (hsent : s'.sent = s.sent) (hshots : s'.shots = s.shots)
    (hplayed : ∀ id, idsOf l.server.players p = some id → s'.played id = s.played id) :
    Sound (l.put p s') := by
  have hcases : ∀ q t, (l.put p s').sessions q = some t →
      ∃ t₀, l.sessions q = some t₀ ∧ t.player = t₀.player ∧ t.sent = t₀.sent ∧
        t.shots = t₀.shots := by
    intro q t ht
    simp only [System.put, Function.update_apply] at ht
    split at ht
    · rename_i heq
      subst heq
      cases ht
      exact ⟨s, hs, hplayer, hsent, hshots⟩
    · exact ⟨t, ht, rfl, rfl, rfl⟩
  refine h.kept rfl rfl (fun q t ht => ?_) (fun q id hq => ⟨hq, ?_⟩) (fun q t ht => ?_)
    (fun q t ht => ?_)
  · obtain ⟨t₀, ht₀, hpl, -, -⟩ := hcases q t ht
    exact ⟨t₀, ht₀, hpl⟩
  · obtain ⟨t, ht, -⟩ := h.seated q id hq
    by_cases hqp : q = p <;> simp [System.put, hqp, ht]
  · simp only [System.put, Function.update_apply] at ht
    split at ht
    · cases ht
      exact hlinked
    · exact h.linked q t ht
  · obtain ⟨t₀, ht₀, hpl, hse, hsh⟩ := hcases q t ht
    rw [hpl, hse, hsh]
    exact (h.relayed q t₀ ht₀).still (List.prefix_refl _)
      (fun a id n hactive => .inl ⟨id, n, active_put hs hplayer hplayed hactive⟩)
      (fun hq a id n hactive => .inl ⟨hq, active_put hs hplayer hplayed hactive⟩)

theorem Linked.fire (h : Linked s) (id : UInt32) :
    Linked { s with fired := s.fired ++ (sendFireEvent s.net id).map Sent.data } := by
  refine ⟨h.client, h.queue, h.arrived, h.quiet, fun data hdata => ?_, ?_⟩
  · rcases List.mem_append.mp hdata with hdata | hdata
    · exact h.fired data hdata
    · obtain ⟨packet, hpacket, rfl⟩ := List.mem_map.mp hdata
      unfold sendFireEvent send at hpacket
      split at hpacket
      · split at hpacket
        · rw [List.mem_singleton.mp hpacket]
          exact ⟨id, rfl⟩
        · cases hpacket
      · cases hpacket
  · have hhandled := h.handled
    simp only [List.length_append]
    omega

theorem Linked.poll (h : Linked s) {dt : ℚ} {waiting : List Net.HostEvent}
    {arrivals : List (Channel × List UInt8)} {net : NetClient} {sent : List Sent}
    (harrive : Delivers s.sent (s.got ++ arrivals))
    (hwaiting : waiting.filterMap packet = arrivals.map Prod.snd)
    (hpoll : Net.poll s.net dt waiting = some (net, sent)) :
    Linked { s with net := net, got := s.got ++ arrivals } := by
  obtain ⟨hclient, hfires⟩ := poll_fires h.client hpoll
  -- only the packets of the game event channel bring shots
  have hline : (arrivals.map Prod.snd).filterMap fireOf =
      (on .gameEvents arrivals).filterMap fireOf := by
    have hothers : ∀ m ∈ arrivals, m.1 ≠ .gameEvents → fireOf m.2 = none := fun m hm hne =>
      h.quiet m.1 m.2 (harrive.mem (List.mem_append_right _ hm)) hne
    clear harrive hwaiting
    induction arrivals with
    | nil => rfl
    | cons m rest ih =>
      have hrest := ih fun m hm => hothers m (List.mem_cons_of_mem _ hm)
      by_cases hm : m.1 = .gameEvents
      · simp only [on, List.filter_cons, hm, decide_true, if_true, List.map_cons,
          List.filterMap_cons] at hrest ⊢
        rw [hrest]
      · have hnone := hothers m List.mem_cons_self hm
        simp only [on, List.filter_cons, hm, decide_false, Bool.false_eq_true, if_false,
          List.map_cons, List.filterMap_cons, hnone] at hrest ⊢
        exact hrest
  refine ⟨hclient, ?_, harrive.reliable .gameEvents (by decide), h.quiet, h.fired, h.handled⟩
  rw [hfires, hwaiting, hline, ← List.append_assoc, h.queue, on_append, List.filterMap_append]

theorem Linked.take (h : Linked s) : Linked { s with
    net := (takeFireEvents s.net).1
    taken := s.taken ++ (takeFireEvents s.net).2 } := by
  refine ⟨h.client, ?_, h.arrived, h.quiet, h.fired, h.handled⟩
  have hqueue := h.queue
  simp [takeFireEvents, hqueue]

/-! ## The server's steps -/

theorem on_packetsTo {acts : List Action} {q : Peer} {channel : Channel} {data : List UInt8}
    (h : data ∈ on channel (packetsTo q acts)) : ∃ flag, .send q channel data flag ∈ acts :=
  mem_packetsTo.mp (mem_on.mp h)

theorem Linked.hear (h : Linked s) {st st' : State} {e : Event} {acts : List Action}
    (hstep : Server.step st e = some (st', acts)) (q : Peer) :
    Linked { s with sent := s.sent ++ packetsTo q acts } := by
  refine ⟨h.client, h.queue, ?_, fun channel data hdata hne => ?_, h.fired, h.handled⟩
  · rw [on_append]
    exact h.arrived.trans (List.prefix_append _ _)
  · rcases List.mem_append.mp hdata with hdata | hdata
    · exact h.quiet channel data hdata hne
    · obtain ⟨flag, hsend⟩ := mem_packetsTo.mp hdata
      exact (says_fireOf (step_speaks hstep _ hsend _ _ _ _ rfl)).resolve_right fun hfire =>
        hne hfire.1

/-- The log entry behind a farewell. -/
theorem farewell_entry {acts : List Action} {channel : Channel} {data : List UInt8}
    {flag : PacketFlag} (hsend : .send q channel data flag ∈ acts)
    (hparse : ServerMessage.parse data = some (.playerDisconnect id)) :
    .farewell q id ∈ entries acts := by
  refine List.mem_flatMap.mpr ⟨_, hsend, ?_⟩
  simp [Action.entries, hparse, messageEntries]

/-- A step that seats nobody and relays no shot; a session may end with it. -/
theorem Sound.serve (h : Sound l) {e : Event} {server : State} {acts : List Action}
    (hconnect : ∀ p now, e ≠ .connect p now)
    (hfire : ∀ p data now, e = .receive p data now → packetType data ≠ some .playerFire)
    (hstep : Server.step l.server e = some (server, acts)) {sessions : Peer → Option Session}
    (hsub : ∀ q s, sessions q = some s → l.sessions q = some s)
    (hseat : ∀ q, idsOf server.players q ≠ none → sessions q = l.sessions q) :
    Sound ⟨server, l.ids, deliver acts sessions⟩ := by
  obtain ⟨hmoves, hnext⟩ := step_moves hconnect hstep
  have hcases : ∀ q s, deliver acts sessions q = some s →
      ∃ t, l.sessions q = some t ∧ s = { t with sent := t.sent ++ packetsTo q acts } := by
    intro q s hs
    obtain ⟨t, ht, rfl⟩ := Option.map_eq_some_iff.mp hs
    exact ⟨t, hsub q t ht, rfl⟩
  have hactive : ∀ a id n, Active ⟨server, l.ids, deliver acts sessions⟩ a id n →
      Active l a id n := by
    rintro a id n ⟨q, s, hs, hplayer, hq, hn⟩
    obtain ⟨t, ht, rfl⟩ := hcases q s hs
    exact ⟨q, t, ht, hplayer, hmoves.ids q id hq, hn⟩
  refine h.kept rfl hnext (fun q s hs => ?_) (fun q id hq => ⟨hmoves.ids q id hq, ?_⟩)
    (fun q s hs => ?_) (fun q s hs => ?_)
  · obtain ⟨t, ht, rfl⟩ := hcases q s hs
    exact ⟨t, ht, rfl⟩
  · obtain ⟨t, ht, -⟩ := h.seated q id (hmoves.ids q id hq)
    rw [← hseat q (by simp [hq])] at ht
    simp [deliver, ht]
  · obtain ⟨t, ht, rfl⟩ := hcases q s hs
    exact (h.linked q t ht).hear hstep q
  · obtain ⟨t, ht, rfl⟩ := hcases q s hs
    simp only [on_append]
    refine (h.relayed q t ht).hear (List.prefix_refl _) (fun data hdata => ?_)
      (fun data hdata id hparse => ?_) (fun a id n ha => .inl ⟨id, n, hactive a id n ha⟩)
      (fun hq a id n ha => .inl ⟨hmoves.shrinks q hq, hactive a id n ha⟩)
    · obtain ⟨flag, hsend⟩ := on_packetsTo hdata
      refine (says_fireOf (step_speaks hstep _ hsend _ _ _ _ rfl)).resolve_right ?_
      rintro ⟨-, p, bytes, now, he, ht⟩
      exact hfire p bytes now he ht
    · obtain ⟨flag, hsend⟩ := on_packetsTo hdata
      obtain ⟨p, hp, hgone⟩ := hmoves.farewells q id (farewell_entry hsend hparse)
      obtain ⟨s, hs, hid⟩ := h.seated p id hp
      refine ⟨s.player, hid, ?_⟩
      rintro id' n ⟨p', s', hs', hplayer, hp', -⟩
      obtain ⟨t', ht', rfl⟩ := hcases p' s' hs'
      rw [h.one p' p t' s ht' hs hplayer, hgone] at hp'
      cases hp'

/-- On the lines of the others a CONNECT is an announcement and nothing else. -/
theorem connect_line {now : ℚ} {st : State} {data : List UInt8}
    (h : data ∈ on .gameEvents (packetsTo q (handleConnect now p st).2)) :
    q ≠ p ∧ data = msgEntity.encode ⟨MessageType.playerConnect.code, st.nextEntityId⟩ := by
  rw [packetsTo_connect, mem_on] at h
  split at h
  · simp at h
  · rename_i hne
    split at h
    · exact ⟨hne, (Prod.mk.inj (List.mem_singleton.mp h)).2⟩
    · cases h

/-- It brings no shot and bids farewell to nobody. -/
theorem connect_quiet {now : ℚ} {st : State} {data : List UInt8}
    (h : data ∈ on .gameEvents (packetsTo q (handleConnect now p st).2)) :
    fireOf data = none ∧ ∀ id, ServerMessage.parse data ≠ some (.playerDisconnect id) := by
  obtain ⟨-, rfl⟩ := connect_line h
  refine ⟨fireOf_entity (by decide) _, fun id => ?_⟩
  rw [ServerMessage.parse_entity _ _ (by decide)]
  simp [ServerMessage.ofEntity]

/-- The newcomer's connection is new, and the others are told. -/
theorem join_cases {now : ℚ} (hs : (l.join p now).sessions q = some s) :
    (q = p ∧ s = { player := l.ids.length, sent := packetsTo p (handleConnect now p l.server).2 }) ∨
    q ≠ p ∧ ∃ t, l.sessions q = some t ∧
      s = { t with sent := t.sent ++ packetsTo q (handleConnect now p l.server).2 } := by
  obtain ⟨t, ht, rfl⟩ := Option.map_eq_some_iff.mp hs
  rw [Function.update_apply] at ht
  split at ht
  · rename_i heq
    subst heq
    cases ht
    exact .inl ⟨rfl, rfl⟩
  · rename_i hne
    exact .inr ⟨hne, t, ht, rfl⟩

theorem join_ids (l : System) (p : Peer) (now : ℚ) : idsOf (l.join p now).server.players =
    Function.update (idsOf l.server.players) p (some l.server.nextEntityId) :=
  idsOf_insert _ _ _

theorem join_active {now : ℚ} (h : Active (l.join p now) a id n) :
    Active l a id n ∨ l.ids.length ≤ a := by
  obtain ⟨q, s, hs, hplayer, hq, hn⟩ := h
  rcases join_cases hs with ⟨-, rfl⟩ | ⟨hne, t, ht, rfl⟩
  · exact .inr hplayer.le
  · rw [join_ids, Function.update_of_ne hne] at hq
    exact .inl ⟨q, t, ht, hplayer, hq, hn⟩

theorem Sound.connect (h : Sound l) (now : ℚ) : Sound (l.join p now) := by
  have hstep : Server.step l.server (.connect p now) = some (handleConnect now p l.server) := rfl
  refine ⟨?_, ?_, fun q s hs => ?_, fun q q' s s' hs hs' heq => ?_, fun q id hq => ?_,
    fun q s hs => ?_, fun q s hs => ?_⟩
  · rw [System.join_ids, List.length_append, List.length_singleton, List.range_succ,
      List.map_append, ← h.ids, h.counter]
    rfl
  · change l.server.nextEntityId + 1 = _
    rw [h.counter, System.join_ids, List.length_append, List.length_singleton,
      UInt32.ofNat_add (l.ids.length + 1)]
    rfl
  · rw [System.join_ids, List.length_append, List.length_singleton]
    rcases join_cases hs with ⟨-, rfl⟩ | ⟨-, t, ht, rfl⟩
    · exact Nat.lt_succ_self _
    · exact (h.player q t ht).trans (Nat.lt_succ_self _)
  · rcases join_cases hs with ⟨rfl, rfl⟩ | ⟨hne, t, ht, rfl⟩
    · rcases join_cases hs' with ⟨rfl, rfl⟩ | ⟨-, t', ht', rfl⟩
      · rfl
      · exact absurd heq.symm (h.player q' t' ht').ne
    · rcases join_cases hs' with ⟨rfl, rfl⟩ | ⟨-, t', ht', rfl⟩
      · exact absurd heq (h.player q t ht).ne
      · exact h.one q q' t t' ht ht' heq
  · rw [join_ids, Function.update_apply] at hq
    split at hq
    · rename_i heq
      subst heq
      cases hq
      refine ⟨_, Option.map_eq_some_iff.mpr ⟨_, Function.update_self _ _ _, rfl⟩, ?_⟩
      simp
    · rename_i hne
      obtain ⟨t, ht, hid⟩ := h.seated q id hq
      refine ⟨_, Option.map_eq_some_iff.mpr ⟨t, (Function.update_of_ne hne _ _).trans ht, rfl⟩, ?_⟩
      exact getElem?_extend (List.prefix_append _ _) hid
  · rcases join_cases hs with ⟨rfl, rfl⟩ | ⟨-, t, ht, rfl⟩
    · have hnew : Linked { player := l.ids.length } :=
        ⟨rfl, rfl, List.prefix_refl _, by simp, by simp, le_rfl⟩
      exact hnew.hear hstep q
    · exact (h.linked q t ht).hear hstep q
  · rcases join_cases hs with ⟨rfl, rfl⟩ | ⟨hne, t, ht, rfl⟩
    · have hnone : on .gameEvents (packetsTo q (handleConnect now q l.server).2) = [] :=
        List.eq_nil_iff_forall_not_mem.mpr fun data hdata => (connect_line hdata).1 rfl
      rw [hnone]
      exact ⟨rfl, by simp, fun a => ⟨0, 0, rfl, by simp⟩, .nil, by simp⟩
    · simp only [on_append]
      refine (h.relayed q t ht).hear (List.prefix_append _ _)
        (fun data hdata => (connect_quiet hdata).1)
        (fun data hdata id hparse => absurd hparse ((connect_quiet hdata).2 id))
        (fun a id n ha => (join_active ha).imp_left fun ha => ⟨id, n, ha⟩)
        (fun hq a id n ha => (join_active ha).imp (fun ha => ⟨?_, ha⟩) .inl)
      rw [← idsOf_isSome] at hq ⊢
      rwa [join_ids, Function.update_of_ne hne] at hq

/-! ## A packet of `SendFireEvent` -/

theorem shotOf_playerFire (players : Players) (p : Peer) (s : Session) (id : UInt32) :
    shotOf players p s (playerFire id) =
      if idsOf players p = some id then some ⟨s.player, s.played id⟩ else none := by
  unfold shotOf
  cases idsOf players p with
  | none => rfl
  | some id' =>
    by_cases h : id = id'
    · subst h
      simp
    · simp [playerFire_injective.eq_iff, h, Ne.symm h]

theorem played_next (hdata : s.fired[s.handled]? = some (playerFire id)) (id' : UInt32) :
    Session.played { s with handled := s.handled + 1 } id' =
      s.played id' + if id' = id then 1 else 0 := by
  simp only [Session.played, List.take_add_one, hdata, Option.toList_some, List.count_append,
    List.count_singleton]
  by_cases h : id' = id
  · simp [h]
  · simp [h, playerFire_injective.eq_iff, Ne.symm h]

theorem Linked.next (h : Linked s) (hdata : s.fired[s.handled]? = some (playerFire id)) :
    Linked { s with handled := s.handled + 1 } :=
  ⟨h.client, h.queue, h.arrived, h.quiet, h.fired, (List.getElem?_eq_some_iff.mp hdata).1⟩

/-- The system after a shot of a registered player was handled. -/
def System.shoot (l : System) (p : Peer) (s : Session) (id : UInt32) : System where
  server := l.server
  ids := l.ids
  sessions := deliver (relayFire l.server.players id p)
    (note l.server.players p (some ⟨s.player, s.played id⟩)
      (Function.update l.sessions p (some { s with handled := s.handled + 1 })))

/-- Everybody else who is registered hears of the shot, and nobody else. -/
theorem shoot_cases {t' : Session} (ht' : (l.shoot p s id).sessions q = some t') :
    (q = p ∧ t' = { s with handled := s.handled + 1, sent := s.sent ++ [] }) ∨
    q ≠ p ∧ ∃ t, l.sessions q = some t ∧ t'.player = t.player ∧
      (∀ id, t'.played id = t.played id) ∧
      ((q ∈ l.server.players.keys ∧ t'.shots = t.shots ++ [⟨s.player, s.played id⟩] ∧
        t'.sent = t.sent ++ [(.gameEvents, msgEntity.encode ⟨MessageType.remoteFire.code, id⟩)]) ∨
      q ∉ l.server.players.keys ∧ t'.shots = t.shots ∧ t'.sent = t.sent) := by
  have hline : packetsTo q (relayFire l.server.players id p) =
      if q ≠ p ∧ q ∈ l.server.players.keys then
        [(.gameEvents, msgEntity.encode ⟨MessageType.remoteFire.code, id⟩)] else [] :=
    packetsTo_broadcastEntity _ _ _ _ _
  obtain ⟨mid, hmid, rfl⟩ := Option.map_eq_some_iff.mp ht'
  obtain ⟨t, ht, rfl⟩ := Option.map_eq_some_iff.mp hmid
  rw [hline]
  by_cases hq : q = p
  · subst hq
    rw [Function.update_self] at ht
    cases ht
    simp
  · rw [Function.update_of_ne hq] at ht
    refine .inr ⟨hq, t, ht, ?_⟩
    by_cases hkeys : q ∈ l.server.players.keys
    · simp [hq, hkeys, Session.played]
    · simp [hkeys, Session.played]

/-- The player that fired has one more shot handled. -/
theorem shoot_active (h : Sound l) (hs : l.sessions p = some s)
    (hdata : s.fired[s.handled]? = some (playerFire id))
    (hid : idsOf l.server.players p = some id) {id' : UInt32}
    (ha : Active (l.shoot p s id) a id' n) :
    a = s.player ∧ n = s.played id + 1 ∨ a ≠ s.player ∧ Active l a id' n := by
  obtain ⟨q, t', ht', hplayer, hq, hn⟩ := ha
  rcases shoot_cases ht' with ⟨rfl, rfl⟩ | ⟨hne, t, ht, hpl, hplayed, -⟩
  · cases hid.symm.trans hq
    refine .inl ⟨hplayer.symm, ?_⟩
    have hnext := played_next hdata id
    rw [if_pos rfl] at hnext
    exact hn.symm.trans hnext
  · refine .inr ⟨?_, q, t, ht, hpl ▸ hplayer, hq, hplayed id' ▸ hn⟩
    rintro rfl
    exact hne (h.one q p t s ht hs (hpl ▸ hplayer))

theorem shoot_linked (h : Sound l) (hs : l.sessions p = some s)
    (hdata : s.fired[s.handled]? = some (playerFire id)) {now : ℚ}
    (hstep : Server.step l.server (.receive p (playerFire id) now) =
      some (l.server, relayFire l.server.players id p)) {t' : Session}
    (ht' : (l.shoot p s id).sessions q = some t') : Linked t' := by
  obtain ⟨mid, hmid, rfl⟩ := Option.map_eq_some_iff.mp ht'
  refine Linked.hear ?_ hstep q
  obtain ⟨t, ht, rfl⟩ := Option.map_eq_some_iff.mp hmid
  have hlinked : Linked t := by
    rw [Function.update_apply] at ht
    split at ht
    · cases ht
      exact (h.linked p s hs).next hdata
    · exact h.linked q t ht
  split
  · exact ⟨hlinked.client, hlinked.queue, hlinked.arrived, hlinked.quiet, hlinked.fired,
      hlinked.handled⟩
  · exact hlinked

/-- The shot of a registered player goes out to all the others, and is noted for them. -/
theorem Sound.shot (h : Sound l) (hnodup : l.ids.Nodup) (hs : l.sessions p = some s)
    (hdata : s.fired[s.handled]? = some (playerFire id)) {now : ℚ}
    (hid : idsOf l.server.players p = some id)
    (hstep : Server.step l.server (.receive p (playerFire id) now) =
      some (l.server, relayFire l.server.players id p)) : Sound (l.shoot p s id) := by
  have hself : Active l s.player id (s.played id) := ⟨p, s, hs, rfl, hid, rfl⟩
  have hactive : ∀ a id' n, Active (l.shoot p s id) a id' n →
      a = s.player ∧ n = s.played id + 1 ∨ a ≠ s.player ∧ Active l a id' n :=
    fun a id' n ha => shoot_active h hs hdata hid ha
  have hback : ∀ a id' n, Active (l.shoot p s id) a id' n →
      (∃ id n, Active l a id n) ∨ l.ids.length ≤ a := by
    intro a id' n ha
    rcases hactive a id' n ha with ⟨rfl, -⟩ | ⟨-, ha⟩
    · exact .inl ⟨id, _, hself⟩
    · exact .inl ⟨id', n, ha⟩
  refine h.kept rfl rfl (fun q t' ht' => ?_) (fun q id' hq => ⟨hq, ?_⟩)
    (fun q t' ht' => shoot_linked h hs hdata hstep ht') (fun q t' ht' => ?_)
  · rcases shoot_cases ht' with ⟨rfl, rfl⟩ | ⟨-, t, ht, hpl, -⟩
    · exact ⟨s, hs, rfl⟩
    · exact ⟨t, ht, hpl⟩
  · obtain ⟨t, ht, -⟩ := h.seated q id' hq
    by_cases hqp : q = p <;> simp [System.shoot, deliver, note, hqp, ht]
  · rcases shoot_cases ht' with ⟨rfl, rfl⟩ | ⟨hne, t, ht, hpl, -, ⟨hq, hshots, hsent⟩ |
      ⟨hq, hshots, hsent⟩⟩
    · -- the player itself hears nothing
      rw [List.append_nil]
      refine (h.relayed q s hs).still (List.prefix_refl _) hback (fun hq a id' n ha => ?_)
      rcases hactive a id' n ha with ⟨rfl, -⟩ | ⟨-, ha⟩
      · exact .inr (.inr rfl)
      · exact .inl ⟨hq, ha⟩
    · have hab : s.player ≠ t.player := fun heq => hne (h.one q p t s ht hs heq.symm)
      rw [hpl, hshots, hsent, on_append]
      exact (h.relayed q t ht).shot hnodup rfl hq hself (h.named hs hid) hab hactive
    · rw [hpl, hshots, hsent]
      exact (h.relayed q t ht).still (List.prefix_refl _) hback (fun hq' => absurd hq' hq)

/-- The next packet of a client reaches the server. -/
theorem Sound.handle (h : Sound l) (hnodup : l.ids.Nodup) (hs : l.sessions p = some s)
    {data : List UInt8} (hdata : s.fired[s.handled]? = some data) {now : ℚ} {server : State}
    {acts : List Action}
    (hstep : Server.step l.server (.receive p data now) = some (server, acts)) :
    Sound ⟨server, l.ids, deliver acts
      (note l.server.players p (shotOf l.server.players p s data)
        (Function.update l.sessions p (some { s with handled := s.handled + 1 })))⟩ := by
  obtain ⟨id, rfl⟩ := (h.linked p s hs).fired data (List.mem_of_getElem? hdata)
  obtain ⟨rfl, rfl⟩ := step_playerFire hstep
  rw [shotOf_playerFire]
  by_cases hid : idsOf l.server.players p = some id
  · rw [if_pos hid] at hstep ⊢
    rw [if_pos hid]
    exact h.shot hnodup hs hdata hid hstep
  · rw [if_neg hid, if_neg hid]
    have hput : deliver [] (note l.server.players p none
        (Function.update l.sessions p (some { s with handled := s.handled + 1 }))) =
        Function.update l.sessions p (some { s with handled := s.handled + 1 }) := by
      funext q
      simp only [deliver, note, Option.toList_none, List.append_nil, ite_self, Option.map_id']
      simp [packetsTo]
    rw [hput]
    refine h.put hs ((h.linked p s hs).next hdata) rfl rfl rfl fun id' hid' => ?_
    have hne : id' ≠ id := fun heq => hid (heq ▸ hid')
    rw [played_next hdata, if_neg hne, Nat.add_zero]

/-! ## Every step -/

theorem sound_start (now : ℚ) : Sound (start now) where
  ids := rfl
  counter := rfl
  player := by simp [start]
  one := by simp [start]
  seated := by simp [start, Server.start, idsOf]
  linked := by simp [start]
  relayed := by simp [start]

theorem Step.ids (hs : Step l l') : l.ids <+: l'.ids := by
  cases hs with
  | connect _ _ => exact List.prefix_append _ _
  | serve | disconnect | fire | handle | poll | take => exact List.prefix_refl _

/-- Every step keeps both sides sound, as long as the sender's id is its own. -/
theorem Sound.step (h : Sound l) (hnodup : l.ids.Nodup) (hs : Step l l') : Sound l' := by
  cases hs with
  | connect now _ => exact h.connect now
  | serve he hstep =>
    refine h.serve ?_ ?_ hstep (fun _ _ hs => hs) (fun _ _ => rfl)
    · rintro p now rfl
      exact he
    · rintro p data now rfl
      exact he
  | disconnect hstep =>
    rename_i p server acts
    refine h.serve (by simp) (by simp) hstep (fun q s hs => ?_) (fun q hq => ?_)
    · rw [Function.update_apply] at hs
      split at hs
      · cases hs
      · exact hs
    · refine Function.update_of_ne ?_ _ _
      rintro rfl
      cases hstep
      refine hq (Option.not_isSome_iff_eq_none.mp fun hsome => ?_)
      exact handlePeerGone_absent q l.server.players ((idsOf_isSome _ q).mp hsome)
  | fire id hs =>
    refine h.put hs ((h.linked _ _ hs).fire id) rfl rfl rfl fun id' _ => ?_
    rw [Session.played, List.take_append_of_le_length (h.linked _ _ hs).handled]
    rfl
  | handle hs hdata hstep => exact h.handle hnodup hs hdata hstep
  | poll hs harrive hwaiting hpoll =>
    exact h.put hs ((h.linked _ _ hs).poll harrive hwaiting hpoll) rfl rfl rfl fun _ _ => rfl
  | take hs => exact h.put hs (h.linked _ _ hs).take rfl rfl rfl fun _ _ => rfl

end Fnvmp.FireRelay
