import Mathlib.Data.Rat.Defs
import SignalSim.Foundations.Result

/-!
# The conversations of a client

`main_worker` of `mgen-client.rs` reads the configurations of the users and fills in what a
conversation leaves to the defaults of its user. The conversations are only spawned when all
configurations have been read, so none is if the distributions of any are rejected.

## Main definitions

* `mainWorker` — the conversations that are spawned
* `Filled` — a conversation with its own values and the defaults of the user

## Main results

* `mainWorker_eq_ok` — all conversations of all configurations are spawned, in order
-/

namespace SignalSim.Mgen.Client

/-- A conversation as it is configured, with distributions of type `D`. -/
structure ConversationConfig (D : Type) where
  group : String
  messageServer : Option String
  webServer : Option String
  bootstrap : Option ℚ
  retry : Option ℚ
  distributions : Option D

structure Config (D : Type) where
  user : String
  socks : Option String
  messageServer : String
  webServer : String
  bootstrap : ℚ
  retry : ℚ
  distributions : D
  conversations : List (ConversationConfig D)

/-- A conversation as it is spawned. -/
structure FullConfig (R : Type) where
  user : String
  group : String
  socks : Option String
  messageServer : String
  webServer : String
  bootstrap : ℚ
  retry : ℚ
  distributions : R

section

variable {D E R : Type} (tryInto : D → Except E R)

/-- The distributions of a conversation. -/
def conversationDists (defaultDists : R) (conversation : ConversationConfig D) : Except E R :=
  match conversation.distributions with
  | some dists => tryInto dists
  | none => .ok defaultDists

/-- `filled_conversation`. -/
def fillConversation (config : Config D) (defaultDists : R)
    (conversation : ConversationConfig D) : Except E (FullConfig R) := do
  let distributions ← conversationDists tryInto defaultDists conversation
  return {
    user := config.user
    group := conversation.group
    socks := config.socks
    messageServer := conversation.messageServer.getD config.messageServer
    webServer := conversation.webServer.getD config.webServer
    bootstrap := conversation.bootstrap.getD config.bootstrap
    retry := conversation.retry.getD config.retry
    distributions }

/-- The conversations of one file. -/
def fillConfig (config : Config D) : Except E (List (FullConfig R)) := do
  let defaultDists ← tryInto config.distributions
  config.conversations.mapM (fillConversation tryInto config defaultDists)

/-- `main_worker`, from the configurations in the files. -/
def mainWorker (configs : List (Config D)) : Except E (List (FullConfig R)) := do
  let tasks ← configs.mapM (fillConfig tryInto)
  return tasks.flatten

/-- The conversation has the values it is configured with, and those of the user where it is
not. -/
structure Filled (p : Config D × ConversationConfig D) (task : FullConfig R) : Prop where
  user_eq : task.user = p.1.user
  group_eq : task.group = p.2.group
  socks_eq : task.socks = p.1.socks
  messageServer_eq : task.messageServer = p.2.messageServer.getD p.1.messageServer
  webServer_eq : task.webServer = p.2.webServer.getD p.1.webServer
  bootstrap_eq : task.bootstrap = p.2.bootstrap.getD p.1.bootstrap
  retry_eq : task.retry = p.2.retry.getD p.1.retry
  distributions_eq : tryInto (p.2.distributions.getD p.1.distributions) = .ok task.distributions

variable {tryInto} {config : Config D} {configs : List (Config D)} {tasks : List (FullConfig R)}

theorem filled_of_fillConversation {defaultDists : R} {conversation : ConversationConfig D}
    {task : FullConfig R} (hdefault : tryInto config.distributions = .ok defaultDists)
    (h : fillConversation tryInto config defaultDists conversation = .ok task) :
    Filled tryInto (config, conversation) task := by
  obtain ⟨distributions, hdists, h⟩ := Result.bind_eq_ok h
  obtain rfl := Except.ok.inj h
  refine ⟨rfl, rfl, rfl, rfl, rfl, rfl, rfl, ?_⟩
  unfold conversationDists at hdists
  cases hconv : conversation.distributions with
  | none =>
    rw [hconv] at hdists
    obtain rfl := Except.ok.inj hdists
    exact hdefault
  | some dists =>
    rw [hconv] at hdists
    exact hdists

/-- **Spawned conversations.** If all distributions are accepted, every conversation of every
configuration is spawned once, in order, with its defaults filled in. -/
theorem mainWorker_eq_ok (h : mainWorker tryInto configs = .ok tasks) :
    List.Forall₂ (Filled tryInto)
      (configs.flatMap fun config => config.conversations.map (config, ·)) tasks := by
  obtain ⟨parts, hparts, h⟩ := Result.bind_eq_ok h
  obtain rfl := Except.ok.inj h
  rw [List.flatMap_def]
  apply List.rel_flatten
  rw [List.forall₂_map_left_iff]
  refine (Result.mapM_eq_ok hparts).imp ?_
  intro config part hpart
  obtain ⟨defaultDists, hdefault, hpart⟩ := Result.bind_eq_ok hpart
  rw [List.forall₂_map_left_iff]
  exact (Result.mapM_eq_ok hpart).imp fun conversation task htask =>
    filled_of_fillConversation hdefault htask

end

end SignalSim.Mgen.Client
