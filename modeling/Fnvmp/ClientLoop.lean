import Fnvmp.EntityManager
import Fnvmp.EventRun
import Fnvmp.NetClient

/-!
# The client main loop

One frame of the game, from `Poll` to `EntityManager_Tick`. Disconnect events, fire
events and the pending world snapshot are handed to the entity manager in this order,
so a frame is a run of entity manager operations.
-/

namespace Fnvmp.Client

open Engine Protocol Net EntityManager

/-- `g_netClient`, the state of the entity manager and `g_gameTime`. -/
structure Plugin where
  net : NetClient := {}
  manager : Manager := {}
  gameTime : ℚ := 0

/-- What one frame meets: the time since the last one, the host events that are waiting,
the engine, and passes enough for its angle loops. -/
structure Frame where
  dt : ℚ
  waiting : List HostEvent
  world : World
  fuel : Nat

def handleDisconnectEvents (c : Plugin) : Plugin :=
  let (net, events) := takeDisconnectEvents c.net
  { c with
    net := net
    manager := events.foldl (fun s id => EntityManager.removeEntity id s) c.manager }

def handleFireEvents (w : World) (c : Plugin) : Plugin :=
  let (net, events) := takeFireEvents c.net
  { c with
    net := net
    manager := events.foldl (fun s id => applyFireEvent w id c.gameTime s) c.manager }

/-- The entities passed on with `(uint16_t)entities.size()`. -/
def worldStates (net : NetClient) : List EntityState :=
  net.worldEntities.take (UInt16.ofNat net.worldEntities.length).toNat

def handleWorldSnapshot (w : World) (c : Plugin) : Plugin :=
  if c.net.hasNewWorldSnapshot then
    { c with
      net := clearWorldSnapshot c.net
      manager :=
        if c.net.worldEntities.isEmpty then c.manager
        else updateFromWorldSnapshot w (worldStates c.net) c.gameTime c.manager }
  else c

/-- `kMessage_MainGameLoop`, up to the point where the local player is looked at. -/
def frame (c : Plugin) (f : Frame) : Option (Plugin × List Sent) :=
  (poll c.net f.dt f.waiting).bind fun (net, sent) =>
    let c := handleDisconnectEvents { c with net := net, gameTime := c.gameTime + f.dt }
    let c := handleWorldSnapshot f.world (handleFireEvents f.world c)
    (EntityManager.tick f.fuel f.world c.gameTime c.manager).map fun manager =>
      ({ c with manager := manager }, sent)

abbrev run : Plugin → List Frame → Option (Plugin × List Sent) := EventRun.exec frame

/-- A client whose connection was just opened, with the entity manager initialised. -/
def start (gameTime : ℚ) (script console compilesSpawn : Bool) (compiles : Script → Bool) :
    Plugin where
  net := { client := true, peer := true }
  manager := EntityManager.init {} script console compilesSpawn compiles
  gameTime := gameTime

/-! ## Frames are runs of the entity manager -/

def removals (net : NetClient) (s : Manager) : Manager :=
  net.disconnectedEntities.foldl (fun s id => EntityManager.removeEntity id s) s

def fires (net : NetClient) (w : World) (t : ℚ) (s : Manager) : Manager :=
  net.fireEvents.foldl (fun s id => applyFireEvent w id t s) s

/-- What the events and the snapshot of a frame do to the entity manager. -/
def received (net : NetClient) (w : World) (t : ℚ) (s : Manager) : Manager :=
  let s := fires net w t (removals net s)
  if net.hasNewWorldSnapshot ∧ net.worldEntities ≠ [] then
    updateFromWorldSnapshot w (worldStates net) t s
  else s

theorem handleWorldSnapshot_eq (w : World) (c : Plugin) : handleWorldSnapshot w c = { c with
    net := clearWorldSnapshot c.net
    manager := if c.net.hasNewWorldSnapshot ∧ c.net.worldEntities ≠ [] then
      updateFromWorldSnapshot w (worldStates c.net) c.gameTime c.manager else c.manager } := by
  unfold handleWorldSnapshot
  cases hnew : c.net.hasNewWorldSnapshot with
  | true => cases hnone : c.net.worldEntities <;> simp
  | false =>
    obtain ⟨⟨⟩, manager, gameTime⟩ := c
    cases hnew
    simp [clearWorldSnapshot]

/-- A frame polls, hands everything over, and ticks. -/
theorem frame_cases {c c' : Plugin} {f : Frame} {sent : List Sent}
    (h : frame c f = some (c', sent)) : ∃ net, poll c.net f.dt f.waiting = some (net, sent) ∧
      tick f.fuel f.world (c.gameTime + f.dt)
        (received net f.world (c.gameTime + f.dt) c.manager) = some c'.manager ∧
      c'.net = { net with
        disconnectedEntities := [], fireEvents := [], hasNewWorldSnapshot := false } := by
  obtain ⟨⟨net, sent'⟩, hpoll, htick⟩ := Option.bind_eq_some_iff.mp h
  obtain ⟨manager, hmanager, heq⟩ := Option.map_eq_some_iff.mp htick
  simp only [Prod.mk.injEq] at heq
  obtain ⟨rfl, rfl⟩ := heq
  rw [handleWorldSnapshot_eq] at hmanager
  refine ⟨net, hpoll, hmanager, ?_⟩
  rw [handleWorldSnapshot_eq]
  rfl

theorem frame_gameTime {c c' : Plugin} {f : Frame} {sent : List Sent}
    (h : frame c f = some (c', sent)) : c'.gameTime = c.gameTime + f.dt := by
  obtain ⟨⟨net, sent'⟩, -, htick⟩ := Option.bind_eq_some_iff.mp h
  obtain ⟨manager, -, heq⟩ := Option.map_eq_some_iff.mp htick
  simp only [Prod.mk.injEq] at heq
  rw [← heq.1, handleWorldSnapshot_eq]
  rfl

/-- The operations of a frame. -/
def frameOps (net : NetClient) (f : Frame) (t : ℚ) : List Op :=
  net.disconnectedEntities.map .removeEntity ++
    (net.fireEvents.map (fun id => .applyFireEvent f.world id t) ++
      ((if net.hasNewWorldSnapshot ∧ net.worldEntities ≠ [] then
        [.updateFromWorldSnapshot f.world (worldStates net) t] else []) ++
      [.tick f.fuel f.world t]))

theorem run_map {α : Type} (op : α → Op) {f : Manager → α → Manager}
    (h : ∀ s a, step s (op a) = some (f s a)) (l : List α) (s : Manager) (ops : List Op) :
    EntityManager.run s (l.map op ++ ops) = EntityManager.run (l.foldl f s) ops := by
  induction l generalizing s with
  | nil => rfl
  | cons a l ih =>
    simp only [List.map_cons, List.cons_append, EntityManager.run, List.foldlM_cons, h,
      Option.bind_eq_bind, Option.bind_some, List.foldl_cons]
    exact ih (f s a)

theorem run_tick (s : Manager) (fuel : Nat) (w : World) (t : ℚ) :
    EntityManager.run s [.tick fuel w t] = tick fuel w t s := by
  simp only [EntityManager.run, List.foldlM_cons, List.foldlM_nil, Option.bind_eq_bind,
    Option.pure_def, Option.bind_fun_some, EntityManager.step]

theorem run_frameOps (net : NetClient) (f : Frame) (t : ℚ) (s : Manager) :
    EntityManager.run s (frameOps net f t) = tick f.fuel f.world t (received net f.world t s) := by
  rw [frameOps, run_map .removeEntity (fun _ _ => rfl),
    run_map (fun id => .applyFireEvent f.world id t) (fun _ _ => rfl)]
  unfold received
  dsimp only
  split
  · exact run_tick _ _ _ _
  · exact run_tick _ _ _ _

/-- The operations of a run of frames, up to the one that does not end. -/
def calls : Plugin → List Frame → List Op
  | _, [] => []
  | c, f :: frames => match poll c.net f.dt f.waiting with
    | none => []
    | some (net, _) => frameOps net f (c.gameTime + f.dt) ++ match frame c f with
      | none => []
      | some (c', _) => calls c' frames

theorem calls_cons {c c' : Plugin} {f : Frame} {frames : List Frame} {net : NetClient}
    {sent sent' : List Sent} (hpoll : poll c.net f.dt f.waiting = some (net, sent))
    (hf : frame c f = some (c', sent')) :
    calls c (f :: frames) = frameOps net f (c.gameTime + f.dt) ++ calls c' frames := by
  simp only [calls, hpoll, hf]

theorem calls_append {frames : List Frame} {c d : Plugin} {sent : List Sent}
    (hrun : run c frames = some (d, sent)) (frames' : List Frame) :
    calls c (frames ++ frames') = calls c frames ++ calls d frames' := by
  induction frames generalizing c sent with
  | nil =>
    cases hrun
    rfl
  | cons f frames ih =>
    obtain ⟨c', out, rest, hf, hrest, -⟩ := EventRun.exec_cons_eq_some.mp hrun
    obtain ⟨net, hpoll, -⟩ := frame_cases hf
    rw [List.cons_append, calls_cons hpoll hf, calls_cons hpoll hf, ih hrest, List.append_assoc]

/-- A run of frames is a run of the entity manager. -/
theorem run_calls {frames : List Frame} {c d : Plugin} {sent : List Sent}
    (hrun : run c frames = some (d, sent)) :
    EntityManager.run c.manager (calls c frames) = some d.manager := by
  induction frames generalizing c sent with
  | nil =>
    cases hrun
    rfl
  | cons f frames ih =>
    obtain ⟨c', out, rest, hf, hrest, -⟩ := EventRun.exec_cons_eq_some.mp hrun
    obtain ⟨net, hpoll, htick, -⟩ := frame_cases hf
    rw [calls_cons hpoll hf, EntityManager.run, List.foldlM_append, ← EntityManager.run,
      run_frameOps, htick]
    exact ih hrest

theorem mem_frameOps {net : NetClient} {f : Frame} {t : ℚ} {op : Op}
    (h : op ∈ frameOps net f t) : ∀ w ∈ op.world, w = f.world := by
  simp only [frameOps, List.mem_append, List.mem_map, List.mem_singleton] at h
  obtain ⟨id, -, rfl⟩ | ⟨id, -, rfl⟩ | h | rfl := h
  · simp [Op.world]
  · simp [Op.world]
  · split at h
    · rw [List.mem_singleton.mp h]
      simp [Op.world]
    · cases h
  · simp [Op.world]

theorem mem_calls {frames : List Frame} {c : Plugin} {op : Op} (h : op ∈ calls c frames) :
    ∀ w ∈ op.world, ∃ f ∈ frames, w = f.world := by
  intro w hw
  induction frames generalizing c with
  | nil => cases h
  | cons f frames ih =>
    simp only [calls] at h
    split at h
    · cases h
    · rcases List.mem_append.mp h with h | h
      · exact ⟨f, List.mem_cons_self, mem_frameOps h w hw⟩
      · split at h
        · cases h
        · obtain ⟨g, hg, heq⟩ := ih h
          exact ⟨g, List.mem_cons_of_mem _ hg, heq⟩

end Fnvmp.Client
