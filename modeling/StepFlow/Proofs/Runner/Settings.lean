import Mathlib.Data.List.Basic
import StepFlow.Proofs.Document.Canonical
import StepFlow.Proofs.Except
import StepFlow.Proofs.Text
import StepFlow.Runner.Container

/-!
# The variables of a container

A container tool reads the variables of a task from its arguments: an engine from the values of its options
`-e`, a cluster from the arguments `--env=`, and in each of them the name ends at the first `=`
(`ContainerRunner.settings`). So a task sees its input if no name in this has a `=`, else it sees what stands
behind the first one as part of the value (`ContainerRunner.command_seen`).
-/

namespace StepFlow

/-! ### Texts with an equals sign -/

namespace Text

/-- The characters before and after the first `=`. -/
def cutChars : List Char → Option (List Char × List Char)
  | [] => none
  | c :: cs =>
    if c = '=' then some ([], cs) else (cutChars cs).map fun (front, back) => (c :: front, back)

/-- What stands before and after the first `=`. -/
def cut? (s : String) : Option (String × String) :=
  (cutChars s.toList).map fun (front, back) => (String.ofList front, String.ofList back)

theorem cutChars_append {front : List Char} (h : '=' ∉ front) (back : List Char) :
    cutChars (front ++ '=' :: back) = some (front, back) := by
  induction front with
  | nil => rfl
  | cons c front ih =>
    rw [List.mem_cons, not_or] at h
    obtain ⟨hc, hfront⟩ := h
    rw [List.cons_append, cutChars, if_neg (Ne.symm hc), ih hfront]
    rfl

theorem cutChars_eq_some_iff {cs front back : List Char} :
    cutChars cs = some (front, back) ↔ cs = front ++ '=' :: back ∧ '=' ∉ front := by
  constructor
  · intro h
    induction cs generalizing front with
    | nil => cases h
    | cons c cs ih =>
      unfold cutChars at h
      split at h
      · rename_i hc
        cases h
        exact ⟨hc ▸ rfl, List.not_mem_nil⟩
      · rename_i hc
        obtain ⟨⟨front', _⟩, hcut, heq⟩ := Option.map_eq_some_iff.1 h
        cases heq
        obtain ⟨rfl, hfront⟩ := ih hcut
        exact ⟨rfl, List.not_mem_cons_of_ne_of_not_mem (Ne.symm hc) hfront⟩
  · rintro ⟨rfl, h⟩
    exact cutChars_append h back

theorem cutChars_isSome {cs : List Char} (h : '=' ∈ cs) : (cutChars cs).isSome := by
  induction cs with
  | nil => cases h
  | cons c cs ih =>
    unfold cutChars
    split
    · rfl
    · rename_i hc
      rw [Option.isSome_map]
      exact ih ((List.mem_cons.1 h).resolve_left (Ne.symm hc))

end Text

theorem toList_assignment (name value : String) :
    (assignment name value).toList = name.toList ++ '=' :: value.toList := by
  rw [assignment, String.toList_append, String.toList_append, List.append_assoc]
  rfl

/-- A setting is read as the name and the value it is made of, if the name has no `=`, and only as such. -/
theorem cut?_eq_some_iff {s name value : String} :
    Text.cut? s = some (name, value) ↔ s = assignment name value ∧ '=' ∉ name.toList := by
  rw [← String.toList_inj, toList_assignment, ← Text.cutChars_eq_some_iff, Text.cut?, Option.map_eq_some_iff]
  constructor
  · rintro ⟨⟨front, back⟩, hcut, heq⟩
    cases heq
    rwa [String.toList_ofList, String.toList_ofList]
  · exact fun hcut => ⟨_, hcut, Prod.ext String.ofList_toList String.ofList_toList⟩

theorem cut?_assignment {name : String} (h : '=' ∉ name.toList) (value : String) :
    Text.cut? (assignment name value) = some (name, value) :=
  cut?_eq_some_iff.2 ⟨rfl, h⟩

theorem cut?_assignment_isSome (name value : String) : (Text.cut? (assignment name value)).isSome := by
  rw [Text.cut?, Option.isSome_map, toList_assignment]
  exact Text.cutChars_isSome (List.mem_append_right _ (List.mem_cons_self ..))

namespace Environment

variable {env : Environment}

/-- The settings as they are read one by one. -/
def reread (env : Environment) : Table String :=
  env.filterMap fun (name, value) => Text.cut? (assignment name value)

/-- No name has an equals sign in it. -/
def Plain (env : Environment) : Prop := ∀ name ∈ env.names, '=' ∉ name.toList

theorem length_reread (env : Environment) : env.reread.length = env.length :=
  List.filterMap_length_eq_length.2 fun entry _ => cut?_assignment_isSome entry.1 entry.2

theorem plain_reread (env : Environment) : Plain env.reread := by
  intro name hname
  obtain ⟨⟨_, value⟩, hmem, rfl⟩ := List.mem_map.1 hname
  obtain ⟨_, -, hcut⟩ := List.mem_filterMap.1 hmem
  exact (cut?_eq_some_iff.1 hcut).2

theorem reread_eq_self_iff : env.reread = env ↔ env.Plain := by
  constructor
  · exact fun h => h ▸ plain_reread env
  · intro h
    refine (List.filterMap_congr fun entry hentry => ?_).trans (List.filterMap_some ..)
    exact cut?_assignment (h entry.1 (List.mem_map_of_mem hentry)) entry.2

/-- The variables stand in the order of their names, each once. -/
theorem sorted_ofInput {input : Document} (hinput : input.Canonical) (h : ofInput input = .ok env) :
    env.Sorted := by
  cases input with
  | null =>
    cases h
    exact .nil
  | obj fields =>
    cases h
    rw [Table.Sorted, Table.names, List.map_map]
    exact hinput.1
  | _ => cases h

end Environment

/-! ### What is read from the arguments -/

/-- The options of an engine whose value is the next argument, with their values. -/
def optionValues : List String → List (String × String)
  | option :: value :: rest =>
    if option = "-e" ∨ option = "-v" then (option, value) :: optionValues rest
    else optionValues (value :: rest)
  | _ => []

theorem optionValues_append {front : List String} (h : ∀ arg ∈ front, arg ≠ "-e" ∧ arg ≠ "-v")
    (rest : List String) : optionValues (front ++ rest) = optionValues rest := by
  induction front with
  | nil => rfl
  | cons arg front ih =>
    obtain ⟨⟨he, hv⟩, hfront⟩ := List.forall_mem_cons.1 h
    have hskip (args : List String) : optionValues (arg :: args) = optionValues args := by
      cases args with
      | nil => rfl
      | cons value rest => rw [optionValues, if_neg (not_or.2 ⟨he, hv⟩)]
    rw [List.cons_append, hskip, ih hfront]

theorem optionValues_assigned (env : Environment) (rest : List String) :
    optionValues ((env.flatMap fun (name, value) => ["-e", assignment name value]) ++ rest) =
      (env.map fun (name, value) => ("-e", assignment name value)) ++ optionValues rest := by
  induction env with
  | nil => rfl
  | cons entry env ih =>
    obtain ⟨name, value⟩ := entry
    rw [List.flatMap_cons, List.append_assoc]
    exact (if_pos (.inl rfl)).trans (congrArg (("-e", assignment name value) :: ·) ih)

/-- The options with which the directory of the credentials is handed over. -/
def mountOptions (handles : Handles) (r : Request) : List (String × String) :=
  if r.hasSecrets then
    [("-v", handles.secretsDir ++ ":" ++ secretsMount ++ ":ro"), ("-e", assignment "_CREDENTIALS" secretsFile)]
  else []

section

variable {handles : Handles} {r : Request} {c : Command}

theorem image_eq (h : r.target ≠ "") : r.image = .ok r.target := if_neg (by simpa using h)

theorem optionArg_ne (name : String) (value : Option String) :
    ∀ arg ∈ optionArg ("--" ++ name) value, arg ≠ "-e" ∧ arg ≠ "-v" := by
  intro arg harg
  obtain ⟨v, -, rfl⟩ := List.mem_map.1 harg
  constructor <;> intro h <;> simpa using congrArg String.toList h

theorem EngineConfig.optionValues_args {config : EngineConfig} {args : List String}
    (h : config.args (if r.hasSecrets then some handles.secretsDir else none) r = .ok args) :
    optionValues args =
      (r.env.map fun (name, value) => ("-e", assignment name value)) ++ mountOptions handles r := by
  obtain ⟨image, -, h⟩ := Except.bind_eq_ok h
  cases h
  have hfront : ∀ arg ∈ ["run", "--rm"] ++ optionArg "--network" config.network ++ optionArg "--pull" config.pull,
      arg ≠ "-e" ∧ arg ≠ "-v" := by
    refine List.forall_mem_append.2 ⟨List.forall_mem_append.2 ⟨by decide, ?_⟩, ?_⟩
    · exact optionArg_ne "network" config.network
    · exact optionArg_ne "pull" config.pull
  rw [List.append_assoc _ _ [image], List.append_assoc _ _ (_ ++ [image]), optionValues_append hfront,
    optionValues_assigned]
  refine congrArg _ ?_
  unfold mountOptions
  cases r.hasSecrets <;> rfl

/-- How a cluster reads an argument. -/
def clusterSetting? (arg : String) : Option (String × String) :=
  (Text.afterPrefix? "--env=" arg).bind Text.cut?

theorem clusterSetting?_append (name value : String) :
    clusterSetting? ("--env=" ++ assignment name value) = Text.cut? (assignment name value) := by
  rw [clusterSetting?, Text.afterPrefix?_append, Option.bind_some]

/-- An argument that starts in another way sets no variable. -/
theorem clusterSetting?_eq_none {front : String}
    (h : ¬ (front.toList <+: "--env=".toList ∨ "--env=".toList <+: front.toList)) (rest : String) :
    clusterSetting? (front ++ rest) = none := by
  rw [clusterSetting?, Option.bind_eq_none_iff]
  intro back hback
  have heq := congrArg String.toList (Text.afterPrefix?_eq_some_iff.1 hback)
  rw [String.toList_append, String.toList_append] at heq
  have hfront : front.toList <+: "--env=".toList ++ back.toList := heq ▸ List.prefix_append ..
  exact absurd (List.prefix_or_prefix_of_prefix hfront (List.prefix_append ..)) h

theorem clusterSetting?_optionArg {name : String}
    (h : ¬ (name.toList <+: "--env=".toList ∨ "--env=".toList <+: name.toList)) (value : Option String) :
    ∀ arg ∈ optionArg name value, clusterSetting? arg = none := by
  intro arg harg
  obtain ⟨v, -, rfl⟩ := List.mem_map.1 harg
  rw [String.append_assoc]
  exact clusterSetting?_eq_none h _

theorem ClusterConfig.settings_args {config : ClusterConfig} {args : List String} {pod id : String}
    (hpod : pod = "floe-task-" ++ id) (h : config.args pod r = .ok args) :
    args.filterMap clusterSetting? =
      r.env.reread ++ if r.hasSecrets then [("_CREDENTIALS", r.secrets.compact)] else [] := by
  obtain ⟨image, -, h⟩ := Except.bind_eq_ok h
  cases h
  have hfront : ∀ arg ∈ ["run", pod, "--rm", "-i", "--quiet", "--restart=Never", "--image=" ++ image]
      ++ config.namespaceArgs ++ optionArg "--image-pull-policy" config.imagePullPolicy,
      clusterSetting? arg = none := by
    refine List.forall_mem_append.2 ⟨List.forall_mem_append.2 ⟨?_, ?_⟩, ?_⟩
    · simp only [List.forall_mem_cons, hpod]
      have himage : clusterSetting? ("--image=" ++ image) = none := clusterSetting?_eq_none (by decide) _
      exact ⟨rfl, clusterSetting?_eq_none (by decide) _, rfl, rfl, rfl, rfl, himage, nofun⟩
    · exact clusterSetting?_optionArg (by decide) _
    · exact clusterSetting?_optionArg (by decide) _
  have hassigned : (r.env.map fun (name, value) => "--env=" ++ assignment name value).filterMap clusterSetting? =
      r.env.reread := by
    rw [List.filterMap_map]
    exact List.filterMap_congr fun entry _ => clusterSetting?_append entry.1 entry.2
  rw [List.filterMap_append, List.filterMap_append, List.filterMap_eq_nil_iff.2 hfront, hassigned, List.nil_append]
  refine congrArg _ ?_
  cases r.hasSecrets with
  | false => rfl
  | true =>
    have hcredentials : '=' ∉ "_CREDENTIALS".toList := by decide
    simp [clusterSetting?_append, cut?_assignment hcredentials]

end

namespace ContainerRunner

/-- The variables that a container tool reads from the arguments. -/
def settings : ContainerRunner → List String → Table String
  | engine .., args => (optionValues args).filterMap fun (option, value) =>
      if option = "-e" then Text.cut? value else none
  | cluster .., args => args.filterMap clusterSetting?

/-- What a task is told of its credentials: in which file they are, or the credentials themselves. -/
def credentialsValue (r : Request) : ContainerRunner → String
  | engine .. => secretsFile
  | cluster .. => r.secrets.compact

/-- The variable of the credentials, if there are any. -/
def credentials (runner : ContainerRunner) (r : Request) : Table String :=
  if r.hasSecrets then [("_CREDENTIALS", runner.credentialsValue r)] else []

/-- The runner is one of an engine. -/
def IsEngine : ContainerRunner → Prop
  | engine .. => True
  | cluster .. => False

section

variable {runner : ContainerRunner} {handles handles' : Handles} {r r' : Request} {c c' : Command} {id : String}

theorem settings_command (hpod : handles.pod = "floe-task-" ++ id) (h : runner.command handles r = .ok c) :
    runner.settings c.args = r.env.reread ++ runner.credentials r := by
  cases runner with
  | engine binary config =>
    obtain ⟨args, hargs, h⟩ := Except.bind_eq_ok h
    cases h
    rw [settings, EngineConfig.optionValues_args hargs, List.filterMap_append, List.filterMap_map]
    refine congrArg₂ _ (List.filterMap_congr fun entry _ => rfl) ?_
    unfold mountOptions credentials
    cases r.hasSecrets with
    | false => rfl
    | true =>
      have hcredentials : '=' ∉ "_CREDENTIALS".toList := by decide
      simp [cut?_assignment hcredentials, credentialsValue]
  | cluster binary config =>
    obtain ⟨args, hargs, h⟩ := Except.bind_eq_ok h
    cases h
    exact ClusterConfig.settings_args hpod hargs

theorem exists_command (h : r.target ≠ "") : ∃ c, runner.command handles r = .ok c := by
  cases runner with
  | engine binary config =>
    exact ⟨_, by simp only [command, EngineConfig.args, image_eq h]; rfl⟩
  | cluster binary config =>
    exact ⟨_, by simp only [command, ClusterConfig.args, image_eq h]; rfl⟩

/-- An engine mounts a directory if there are credentials. -/
theorem hasSecrets_of_mount {binary : String} {config : EngineConfig}
    (h : (engine binary config).command handles r = .ok c) :
    r.hasSecrets = (optionValues c.args).any fun option => option.1 = "-v" := by
  obtain ⟨args, hargs, h⟩ := Except.bind_eq_ok h
  cases h
  have hassigned : (r.env.map fun (name, value) => ("-e", assignment name value)).any
      (fun option => option.1 = "-v") = false := by
    simp
  rw [EngineConfig.optionValues_args hargs, List.any_append, hassigned]
  unfold mountOptions
  cases r.hasSecrets <;> rfl

theorem eq_of_append_credentials {env other : Environment} (henv : "_CREDENTIALS" ∉ env.names)
    (hother : "_CREDENTIALS" ∉ other.names) (h : env ++ runner.credentials r = other ++ runner.credentials r') :
    env = other := by
  have hothers {env : Environment} {r : Request} (hr : "_CREDENTIALS" ∉ env.names) :
      (env ++ runner.credentials r).filter (·.1 ≠ "_CREDENTIALS") = env := by
    have hcredentials : (runner.credentials r).filter (·.1 ≠ "_CREDENTIALS") = [] := by
      unfold credentials
      split <;> rfl
    rw [List.filter_append, hcredentials, List.append_nil, List.filter_eq_self]
    intro entry hentry
    exact decide_eq_true fun heq => hr (heq ▸ List.mem_map_of_mem hentry)
  rw [← hothers henv, h, hothers hother]

theorem engine_args_congr {binary : String} {config : EngineConfig} (hresource : r'.resource = r.resource)
    (henv : r'.env = r.env) (hr : r.hasSecrets) (hr' : r'.hasSecrets)
    (h : (engine binary config).command handles r = .ok c)
    (h' : (engine binary config).command handles r' = .ok c') : c'.args = c.args := by
  have himage : r'.image = r.image := by rw [Request.image, Request.image, Request.target, Request.target, hresource]
  obtain ⟨args, hargs, h⟩ := Except.bind_eq_ok h
  obtain ⟨args', hargs', h'⟩ := Except.bind_eq_ok h'
  cases h
  cases h'
  rw [if_pos hr'] at hargs'
  rw [if_pos hr] at hargs
  unfold EngineConfig.args at hargs hargs'
  rw [himage, henv] at hargs'
  exact Except.ok.inj (hargs'.symm.trans hargs)

theorem names_append_credentials (env : Environment) :
    Table.names (env ++ runner.credentials r) =
      env.names ++ if r.hasSecrets then ["_CREDENTIALS"] else [] := by
  rw [Table.names_append]
  refine congrArg _ ?_
  unfold credentials
  split <;> rfl

/-- What a task sees of a request for which a command is run. -/
structure Seen (runner : ContainerRunner) (handles : Handles) (r : Request) (c : Command) : Prop where
  /-- There is one setting for each variable, read up to its first `=`, and one for the credentials. -/
  settings : runner.settings c.args = r.env.reread ++ runner.credentials r
  length : r.env.reread.length = r.env.length
  sorted : r.env.Sorted
  /-- The names and values are those of the request if no name has a `=`. -/
  exact_iff : runner.settings c.args = r.env ++ runner.credentials r ↔ r.env.Plain
  /-- No variable is set twice but that of the credentials, which may be one of the request as well. -/
  once : r.env.Plain → ((runner.settings c.args).names.Nodup ↔
    ¬ (r.hasSecrets ∧ "_CREDENTIALS" ∈ r.env.names))
  /-- The same arguments are made of the same environment only, if no names have a `=` and the credentials
  are told from a variable. -/
  determined : r.env.Plain → ∀ handles' r' c' id, handles'.pod = "floe-task-" ++ id →
    runner.command handles' r' = .ok c' → r'.env.Plain → c'.args = c.args →
    (runner.IsEngine ∨ r'.hasSecrets = r.hasSecrets ∨
      "_CREDENTIALS" ∉ r'.env.names ∧ "_CREDENTIALS" ∉ r.env.names) → r'.env = r.env
  /-- An engine is given the same arguments whatever the credentials are. -/
  sealed : runner.IsEngine → r.hasSecrets → ∀ r' c', r'.resource = r.resource → r'.env = r.env →
    r'.hasSecrets → runner.command handles r' = .ok c' → c'.args = c.args

/-- A runner makes a command of every request with a target, and in it a task sees the variables of the
request, in the order of their names, and that of the credentials if there are any. -/
theorem command_seen (runner : ContainerRunner) {input : Document} (hinput : input.Canonical)
    (henv : Environment.ofInput input = .ok r.env) (htarget : r.target ≠ "")
    (hpod : handles.pod = "floe-task-" ++ id) : ∃ c, runner.command handles r = .ok c ∧ Seen runner handles r c := by
  obtain ⟨c, hc⟩ : ∃ c, runner.command handles r = .ok c := exists_command htarget
  have hsettings := settings_command hpod hc
  have hsorted := Environment.sorted_ofInput hinput henv
  refine ⟨c, hc, hsettings, r.env.length_reread, hsorted, ?_, fun hplain => ?_, ?_, ?_⟩
  · rw [hsettings, List.append_left_inj, Environment.reread_eq_self_iff]
  · rw [hsettings, Environment.reread_eq_self_iff.2 hplain, names_append_credentials]
    cases r.hasSecrets with
    | false => simpa using hsorted.nodup
    | true => simp [List.nodup_append, hsorted.nodup, List.forall_mem_ne']
  · intro hplain handles' r' c' id' hpod' hc' hplain' hargs hsecrets
    have hboth : r'.env ++ runner.credentials r' = r.env ++ runner.credentials r := by
      rw [← Environment.reread_eq_self_iff.2 hplain, ← Environment.reread_eq_self_iff.2 hplain',
        ← hsettings, ← settings_command hpod' hc', hargs]
    have hsame (heq : r'.hasSecrets = r.hasSecrets) : r'.env = r.env := by
      refine List.append_inj_left' hboth ?_
      unfold credentials
      rw [heq]
      split <;> rfl
    rcases hsecrets with hengine | heq | ⟨hr', hr⟩
    · -- The arguments tell by the mounted directory whether there are credentials.
      cases runner with
      | engine binary config => exact hsame (by rw [hasSecrets_of_mount hc', hargs, ← hasSecrets_of_mount hc])
      | cluster => exact hengine.elim
    · exact hsame heq
    · exact eq_of_append_credentials hr' hr hboth
  · intro hengine hr r' c' hresource heq hr' hc'
    cases runner with
    | engine binary config => exact engine_args_congr hresource heq hr hr' hc hc'
    | cluster => exact hengine.elim

end

/-- A request for some image. -/
def sample (env : Environment) (secrets : Document) : Request := ⟨"docker://alpine", env, secrets, none, none⟩

/-- An engine that is called by its usual name. -/
def docker : ContainerRunner := ofEngine "docker" ⟨none, some "tasks", none⟩

def sampleHandles : Handles := ⟨"floe-task-1", "/tmp/secrets"⟩

theorem command_seen_twoVariables :
    let input : Document := .obj [("A", .str "1"), ("B", .num (.int 2))]
    let r := sample [("A", "1"), ("B", "2")] (.obj [("token", .str "t")])
    input.Canonical ∧ Environment.ofInput input = .ok r.env ∧ r.target ≠ "" ∧
      sampleHandles.pod = "floe-task-" ++ "1" ∧ r.env.Plain ∧
      ∃ c, docker.command sampleHandles r = .ok c ∧ Seen docker sampleHandles r c ∧
        docker.settings c.args = [("A", "1"), ("B", "2"), ("_CREDENTIALS", "/run/secrets/credentials.json")] := by
  intro input r
  have hnames : ["A", "B"].Pairwise (· < ·) := by decide
  have hinput : input.Canonical := ⟨hnames, trivial, trivial, trivial⟩
  have henv : Environment.ofInput input = .ok r.env := rfl
  have htarget : r.target ≠ "" := by decide
  have hpod : sampleHandles.pod = "floe-task-" ++ "1" := by decide
  have hplain : r.env.Plain := by unfold Environment.Plain; decide
  obtain ⟨c, hc, hseen⟩ := command_seen docker hinput henv htarget hpod
  exact ⟨hinput, henv, htarget, hpod, hplain, c, hc, hseen, hseen.exact_iff.2 hplain⟩

/-- A field whose name has a `=` is seen under another name, which may be that of another field, and the same
command is made of different inputs. -/
theorem command_mixes_names :
    let input : Document := .obj [("A", .str "x"), ("A=B", .str "c")]
    let r := sample [("A", "x"), ("A=B", "c")] .null
    Environment.ofInput input = .ok r.env ∧
    (∃ c, docker.command sampleHandles r = .ok c ∧ docker.settings c.args = [("A", "x"), ("A", "B=c")]) ∧
    docker.command sampleHandles (sample [("A=B", "c")] .null) =
      docker.command sampleHandles (sample [("A", "B=c")] .null) := by
  refine ⟨rfl, ⟨_, rfl, ?_⟩, ?_⟩
  · decide
  · rfl

end ContainerRunner

end StepFlow
