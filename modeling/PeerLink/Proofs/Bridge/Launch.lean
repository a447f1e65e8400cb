import PeerLink.Proofs.Bridge.Schedule
/-!
# The launch

At the launch the plugins are set up one after another, and those whose setup fails are left out.
There are no tasks then, and `commands` is empty or contains the command to connect to the
configured server.

## Main definitions

* `Plugin.setsUp`: whether the setup of a plugin succeeds.

## Main statements

* `World.launch_spec`: the world after the launch.
* `World.reaches_start`: the start of the bridge is a run from the launch.
-/

namespace PeerLink.Bridge

open Transport Connection Peer

/-- Whether the setup of a plugin succeeds. -/
def Plugin.setsUp : Plugin → Bool
  | scripted _ failing => !failing.contains .setup
  | ping => true

namespace World

/-- A plugin is added if its setup succeeds. The supervisor, the tasks and the executor stay. -/
theorem addPlugin_spec (w : World) (p : Plugin) :
    ∃ log registry, w.addPlugin p = { w with
      plugins := w.plugins ++ [p].filter Plugin.setsUp
      registry
      trace.log := log
      trace.hooks := w.trace.hooks ++ (recorded .setup p).toList } := by
  cases p with
  | scripted name failing =>
    unfold addPlugin callHook
    cases hf : failing.contains .setup with
    | false =>
      have hp : [Plugin.scripted name failing].filter Plugin.setsUp = [.scripted name failing] := by
        simp only [List.filter_cons, Plugin.setsUp, hf]
        rfl
      exact ⟨w.trace.log, w.registry, by simp only [hf, hp, Bool.false_eq_true, if_false]; rfl⟩
    | true =>
      have hp : [Plugin.scripted name failing].filter Plugin.setsUp = [] := by
        simp only [List.filter_cons, Plugin.setsUp, hf]
        rfl
      exact ⟨_, w.registry, by simp only [hf, hp, List.append_nil, if_true]; rfl⟩
  | ping =>
    have hp : [Plugin.ping].filter Plugin.setsUp = [.ping] := rfl
    unfold addPlugin callHook
    cases he : w.pingConfig.enabled with
    | false => exact ⟨w.trace.log, w.registry, by simp [recorded, hp]⟩
    | true => exact ⟨w.trace.log, _, by simp [recorded, hp]; rfl⟩

theorem foldl_addPlugin (plugins : List Plugin) (w : World) :
    ∃ log registry, plugins.foldl addPlugin w = { w with
      plugins := w.plugins ++ plugins.filter Plugin.setsUp
      registry
      trace.log := log
      trace.hooks := w.trace.hooks ++ plugins.filterMap (recorded .setup) } := by
  induction plugins generalizing w with
  | nil => exact ⟨w.trace.log, w.registry, by simp⟩
  | cons p rest ih =>
    obtain ⟨_, _, hp⟩ := addPlugin_spec w p
    obtain ⟨log, registry, hrest⟩ := ih (w.addPlugin p)
    refine ⟨log, registry, ?_⟩
    rw [List.foldl_cons, hrest, hp]
    cases hr : recorded .setup p <;> simp [List.filter_cons, hr] <;> split <;> rfl

theorem launch_eq (config : Config) (script : Script) (plugins : List Plugin) (pingStart : Span) :
    ∃ log registry, launch config script plugins pingStart = { before config script with
      pingStart, registry
      ready := if config.connection.isConfigured then [supervisorId] else []
      commands := if config.connection.isConfigured then [.configure config.connection] else []
      plugins := plugins.filter Plugin.setsUp
      trace.log := log
      trace.hooks := plugins.filterMap (recorded .setup) } := by
  have hplugins : ∃ log registry, plugins.foldl addPlugin
      (if config.general.listenOnly then
        { before config script with pingStart }.log
          (.info "Listen only mode: no updates will be sent to the peer")
      else { before config script with pingStart }) = { before config script with
        pingStart, registry
        plugins := plugins.filter Plugin.setsUp
        trace.log := log
        trace.hooks := plugins.filterMap (recorded .setup) } := by
    cases config.general.listenOnly with
    | false => exact foldl_addPlugin plugins _
    | true => exact foldl_addPlugin plugins _
  obtain ⟨log, registry, h⟩ := hplugins
  unfold launch
  dsimp only
  rw [h]
  cases config.connection.isConfigured with
  | false => exact ⟨_, registry, rfl⟩
  | true => exact ⟨log, registry, rfl⟩

theorem launch_spec (config : Config) (script : Script) (plugins : List Plugin) (pingStart : Span) :
    ∃ log registry ready, launch config script plugins pingStart = { before config script with
      pingStart, registry, ready
      commands := if config.connection.isConfigured then [.configure config.connection] else []
      plugins := plugins.filter Plugin.setsUp
      trace.log := log
      trace.hooks := plugins.filterMap (recorded .setup) } := by
  obtain ⟨log, registry, h⟩ := launch_eq config script plugins pingStart
  exact ⟨log, registry, _, h⟩

section

variable (config : Config) (script : Script) (plugins : List Plugin) (pingStart : Span)

/-- There are no tasks after the launch. -/
theorem tidy_launch : (launch config script plugins pingStart).Tidy := by
  obtain ⟨_, _, _, h⟩ := launch_spec config script plugins pingStart
  rw [h]
  exact .of_nil rfl rfl

/-- The start of the bridge is a run from the launch. -/
theorem reaches_start :
    (launch config script plugins pingStart).Reaches (start config script plugins pingStart) :=
  reaches_settle (tidy_launch config script plugins pingStart)

end

/-! ## A small bridge -/

/-- A server with an identity, no root document, and a stream on which nothing arrives. -/
def demoScript : Script where
  sticky := [
    ("http://demo/rest/events", .stream ⟨[], true⟩),
    ("http://demo/rest/uuid", .response ⟨200, []⟩),
    ("http://demo/rest/", .response ⟨404, []⟩)]

/-- A bridge to `http://demo` with three plugins. The second fails in `connect`, the third in
`setup`. -/
def demo : World :=
  launch { connection := { url := "http://demo" } } demoScript
    [.scripted "a" [], .scripted "b" [.connect], .scripted "c" [.setup]] ⟨0⟩

/-- The commands taken and the world after the bridge has connected, two requests have failed in its
session, and it has connected again. -/
def relapse (w : World) : List Handled × World :=
  let up := w.scheduled [0, 1, 1, 0, 0]
  let failed := (up.2.send (.setOffline (some 1) "reset by peer")).1
  let again := (failed.send (.setOffline (some 1) "timed out")).1.scheduled [0, 0, 3, 3, 0, 0]
  (up.1 ++ again.1, again.2)

theorem run_relapse (w : World) (ht : w.Tidy) : Run w w.relapse.1 w.relapse.2 := by
  have hreport (w : World) (reason : String) :
      Beside [] w (w.send (.setOffline (some 1) reason)).1 := beside_send trivial
  have hup := run_scheduled ht [0, 1, 1, 0, 0]
  have hb := (hreport (w.scheduled [0, 1, 1, 0, 0]).2 "reset by peer").andThen
    (hreport _ "timed out")
  have hagain := run_scheduled (hb.tidy (hup.tidy ht)) [0, 0, 3, 3, 0, 0]
  exact hup.trans ((Run.of_beside hb).trans hagain)

theorem run_demo : Run demo demo.relapse.1 demo.relapse.2 := run_relapse _ (tidy_launch _ _ _ _)

end World

end PeerLink.Bridge
