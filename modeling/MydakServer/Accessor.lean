import MydakServer.Arguments

/-! What the server reads from its command line: each option is got from the array under the type
that it was made with, and the texts go to `database::start`. -/
namespace MydakServer.Args

/-- The type of each parameter, as the place of its alternative in `parameter_variants`. -/
def typeSequence : List Nat := [2, 1, 1]

/-- The alternative that the variant holds. -/
def Parameter.index : Parameter → Nat
  | .smallNumber _ => 0
  | .string _ => 1
  | .ip _ => 2

/-- `get<N>`; `none` where `std::get` throws because the variant holds another alternative. -/
def get (parameters : List Parameter) (n : Nat) : Option ParameterValue :=
  parameters[n]?.bind fun p => if typeSequence[n]? = some p.index then some p.getData else none

/-- `get<Option>`; `none` also where the option does not exist, and the call does not compile. -/
def getOption (parameters : List Parameter) (option : Text) : Option ParameterValue :=
  match optionsIndices.constevalAt (.ofLiteral option) with
  | .ok n => get parameters n
  | .error _ => none

def ParameterValue.text : ParameterValue → Option Text
  | .characters chars => some chars
  | .number _ => none

/-- The arguments of `database::start`. -/
structure ConnectParams where
  hostname : Text
  username : Text
  password : Text
  deriving DecidableEq

/-- The constructor of `server`, from the parameters to the call of `database::start`. -/
def connectParams (parameters : List Parameter) : Option ConnectParams :=
  ((getOption parameters (text "--db-hostname")).bind ParameterValue.text).bind fun hostname =>
  ((getOption parameters (text "--db-username")).bind ParameterValue.text).bind fun username =>
  ((getOption parameters (text "--db-password")).bind ParameterValue.text).map fun password =>
    { hostname, username, password }

/-- What the arguments say; the rest by default. -/
def ConnectParams.given (args : List CString) : ConnectParams where
  hostname := (lastValue args (text "--db-hostname")).getD (text "127.0.0.1")
  username := (lastValue args (text "--db-username")).getD (text "username")
  password := (lastValue args (text "--db-password")).getD (text "password")

/-- The texts that the options take. -/
structure ConnectParams.Valid (makeAddress : Text → Bool) (c : ConnectParams) : Prop where
  address : isAnIp makeAddress c.hostname
  hostname : 0 < c.hostname.length ∧ c.hostname.length ≤ 1024
  username : 4 ≤ c.username.length ∧ c.username.length ≤ 64
  password : 4 ≤ c.password.length ∧ c.password.length ≤ 64

/-- The name, an `=` and the value. -/
def argument (name value : Text) : Text := name ++ 61 :: value

/-- The arguments that give each option its text. -/
def ConnectParams.arguments (c : ConnectParams) : List Text :=
  [argument (text "--db-hostname") c.hostname, argument (text "--db-username") c.username,
    argument (text "--db-password") c.password]

variable {makeAddress : Text → Bool} {done argv : List CString} {s : Processed}

theorem getOption_eq {i : Nat} {name : Text} (hname : optionsTuple[i]? = some name)
    (parameters : List Parameter) : getOption parameters name = get parameters i := by
  have hlookup : optionsIndices.constevalAt (.ofLiteral name) = .ok i := by
    rw [StaticMap.constevalAt_ofLiteral, lookup_options.mpr hname]
    rfl
  rw [getOption, hlookup]

theorem Parameter.index_of_blank {p q : Parameter} (h : q.blank = p.blank) :
    q.index = p.index := by
  cases p <;> cases q <;> simp [Parameter.blank] at h <;> rfl

/-- An option is got as the type that it was made with, and is what its last argument says, or its
default. -/
theorem Holds.get (h : Holds makeAddress done s) {i : Nat} {name : Text} {p : Parameter}
    (hname : optionsTuple[i]? = some name) (hp : parameters[i]? = some p) :
    ∃ x, getOption s.parameters name = some x ∧ match lastValue done name with
      | none => x = p.getData
      | some value => p.Reads makeAddress value x := by
  obtain ⟨q, hq, hblank⟩ := h.parameter hp
  have htypes : parameters.map Parameter.index = typeSequence := rfl
  have htype : typeSequence[i]? = some q.index := by
    rw [← htypes, List.getElem?_map, hp, Option.map_some, Parameter.index_of_blank hblank]
  refine ⟨q.getData, ?_, ?_⟩
  · rw [getOption_eq hname, Args.get, hq, Option.bind_some, if_pos htype]
  · have hv := h.values i q name hq hname
    cases hl : lastValue done name with
    | none =>
      rw [hl] at hv
      rw [Option.some.inj (hp.symm.trans hv)]
    | some value =>
      rw [hl] at hv
      exact hv.congr hblank

theorem Holds.getText (h : Holds makeAddress done s) (i : Nat) (name : Text) {chars : Text}
    {p : Parameter} (hname : optionsTuple[i]? = some name) (hp : parameters[i]? = some p)
    (hdefault : p.getData = .characters chars) :
    (getOption s.parameters name).bind ParameterValue.text =
      some ((lastValue done name).getD chars) := by
  obtain ⟨x, hx, hvalue⟩ := h.get hname hp
  rw [hx, Option.bind_some]
  cases hl : lastValue done name with
  | none =>
    rw [hl] at hvalue
    rw [hvalue, hdefault]
    rfl
  | some value =>
    rw [hl] at hvalue
    cases p with
    | smallNumber p => simp [Parameter.getData] at hdefault
    | string p =>
      rw [hvalue.2]
      rfl
    | ip p =>
      rw [hvalue.2.2]
      rfl

theorem Holds.connectParams (h : Holds makeAddress done s) :
    connectParams s.parameters = some (.given done) := by
  have hhostname := h.getText 0 (text "--db-hostname") rfl rfl rfl
  have husername := h.getText 1 (text "--db-username") rfl rfl rfl
  have hpassword := h.getText 2 (text "--db-password") rfl rfl rfl
  rw [Args.connectParams, hhostname, husername, hpassword]
  rfl

theorem argument_parts {name : Text} (value : Text) (h : 61 ∉ name) :
    61 ∈ argument name value ∧ optionOf (argument name value) = name ∧
      valueOf (argument name value) = value := by
  have hne : ∀ c ∈ name, decide (c ≠ 61) = true := by
    intro c hc
    simpa using fun he : c = 61 => h (he ▸ hc)
  have htake : name.takeWhile (· ≠ 61) = name := List.takeWhile_eq_self_iff.mpr hne
  have hdrop : name.dropWhile (· ≠ 61) = [] := List.dropWhile_eq_nil_iff.mpr hne
  refine ⟨by simp [argument], ?_, ?_⟩
  · rw [optionOf, argument, List.takeWhile_append, htake]
    simp
  · rw [valueOf, argument, List.dropWhile_append, hdrop]
    simp

/-- An argument that is alone in naming its option is the last to name it. -/
theorem lastValue_of_perm {args : List CString} {arguments : List Text} {name value : Text}
    (hperm : (args.map CString.chars).Perm arguments) (hname : 61 ∉ name)
    (halone : arguments.filter (optionOf · = name) = [argument name value]) :
    lastValue args name = some value := by
  have hfilter := hperm.filter (optionOf · = name)
  rw [halone, List.perm_singleton, List.filter_map] at hfilter
  have hlast := congrArg List.getLast? hfilter
  rw [List.getLast?_map, List.getLast?_singleton, Option.map_eq_some_iff] at hlast
  obtain ⟨arg, harg, hchars⟩ := hlast
  have hvalue := (argument_parts value hname).2.2
  rw [← hchars] at hvalue
  rw [lastValue, ← hvalue]
  exact Option.map_eq_some_iff.mpr ⟨arg, harg, rfl⟩

/-- A call that returns has had an element for each argument. -/
theorem processArgs_length (hs : processArgs makeAddress argv = some (.ok s)) :
    argv.length ≤ 128 := by
  by_contra hlen
  obtain ⟨-, -, he⟩ | ⟨-, e, he⟩ := processArgs_past makeAddress (Nat.lt_of_not_le hlen)
  · simp [hs] at he
  · simp [hs] at he

namespace ConnectParams
variable {c : ConnectParams}

theorem given_of_perm (hperm : (argv.tail.map CString.chars).Perm c.arguments) :
    given argv.tail = c := by
  have hhost : (61 : UInt8) ∉ text "--db-hostname" := by decide
  have huser : (61 : UInt8) ∉ text "--db-username" := by decide
  have hpass : (61 : UInt8) ∉ text "--db-password" := by decide
  have hdistinct : text "--db-hostname" ≠ text "--db-username" ∧
      text "--db-hostname" ≠ text "--db-password" ∧
      text "--db-username" ≠ text "--db-password" := by decide
  have hhostname : lastValue argv.tail (text "--db-hostname") = some c.hostname := by
    refine lastValue_of_perm hperm hhost ?_
    simp [arguments, argument_parts, hhost, huser, hpass, hdistinct.1.symm, hdistinct.2.1.symm]
  have husername : lastValue argv.tail (text "--db-username") = some c.username := by
    refine lastValue_of_perm hperm huser ?_
    simp [arguments, argument_parts, hhost, huser, hpass, hdistinct.1, hdistinct.2.2.symm]
  have hpassword : lastValue argv.tail (text "--db-password") = some c.password := by
    refine lastValue_of_perm hperm hpass ?_
    simp [arguments, argument_parts, hhost, huser, hpass, hdistinct.2.1, hdistinct.2.2]
  rw [given, hhostname, husername, hpassword]
  rfl

theorem Valid.accepted (hc : c.Valid makeAddress) :
    ∀ raw ∈ c.arguments, Accepted makeAddress raw := by
  have haccepted : ∀ (i : Nat) (name value : Text) (p : Parameter) (x : ParameterValue),
      optionsTuple[i]? = some name → parameters[i]? = some p → 61 ∉ name → 0 < value.length →
        p.Reads makeAddress value x → Accepted makeAddress (argument name value) := by
    intro i name value p x hname hp hno hvalue hreads
    obtain ⟨hm, hoption, hvalueOf⟩ := argument_parts value hno
    refine ⟨hm, ?_, i, p, x, ?_, hp, ?_⟩
    · rw [hvalueOf]
      exact List.length_pos_iff.mp hvalue
    · rw [hoption, hname]
    · rw [hvalueOf]
      exact hreads
  have husername := hc.username
  have hpassword := hc.password
  simp only [arguments, List.forall_mem_cons]
  refine ⟨?_, ?_, ?_, by simp⟩
  · exact haccepted 0 _ c.hostname _ (.characters c.hostname) rfl rfl (by decide) hc.hostname.1
      ⟨hc.address, ⟨Nat.zero_le _, hc.hostname.2⟩, rfl⟩
  · exact haccepted 1 _ c.username _ (.characters c.username) rfl rfl (by decide) (by omega)
      ⟨husername, rfl⟩
  · exact haccepted 2 _ c.password _ (.characters c.password) rfl rfl (by decide) (by omega)
      ⟨hpassword, rfl⟩

end ConnectParams

/-- The options are got under the types they were made with, and whatever texts they take, one
argument for each brings them to the database unchanged, in any order. -/
theorem connect_params_exact (makeAddress : Text → Bool) (argv : List CString) :
    (∀ s, processArgs makeAddress argv = some (.ok s) →
      connectParams s.parameters = some (.given argv.tail)) ∧
    ∀ c : ConnectParams, c.Valid makeAddress →
      (argv.tail.map CString.chars).Perm c.arguments →
      ∃ s, processArgs makeAddress argv = some (.ok s) ∧ connectParams s.parameters = some c := by
  have hgiven : ∀ s, processArgs makeAddress argv = some (.ok s) →
      connectParams s.parameters = some (.given argv.tail) := by
    intro s hs
    exact (processArgs_eq_ok (processArgs_length hs) hs).2.connectParams
  refine ⟨hgiven, ?_⟩
  intro c hc hperm
  have hlen : argv.length ≤ 128 := by
    have hcount := hperm.length_eq
    simp [ConnectParams.arguments] at hcount
    omega
  have hall : ∀ arg ∈ argv.tail, Accepted makeAddress arg.chars := fun arg harg =>
    hc.accepted _ (hperm.mem_iff.mp (List.mem_map_of_mem harg))
  obtain ⟨-, s, hs, -⟩ | ⟨⟨arg, harg, hno⟩, -⟩ := processArgs_cases makeAddress hlen
  · refine ⟨s, hs, ?_⟩
    rw [hgiven s hs, ConnectParams.given_of_perm hperm]
  · exact absurd (hall arg harg) hno

/-- The password comes first, and is itself an argument. -/
theorem connect_params_exact_reordered :
    ∃ s, processArgs (fun _ => false)
      [⟨text "mydak-server", by decide⟩, ⟨text "--db-password=--db-username=x", by decide⟩,
        ⟨text "--db-hostname=localhost", by decide⟩, ⟨text "--db-username=a=bc", by decide⟩] =
          some (.ok s) ∧
      connectParams s.parameters =
        some ⟨text "localhost", text "a=bc", text "--db-username=x"⟩ := by
  refine (connect_params_exact (fun _ => false) _).2 _ ?_ (by decide)
  exact ⟨by decide, by decide, by decide, by decide⟩

end MydakServer.Args
