import MydakServer.Parameters

/-! The command line: one argument after the other sets an option, and the last one that names an
option wins. -/
namespace MydakServer.Args

def optionsTuple : List Text := [text "--db-hostname", text "--db-username", text "--db-password"]

/-- The parameters with their default values. -/
def parameters : List Parameter :=
  [.ofHostname ⟨text "127.0.0.1", none⟩, .string ⟨⟨text "username", none⟩, 4, 64⟩,
    .string ⟨⟨text "password", none⟩, 4, 64⟩]

def optionsIndices : StaticMap Nat := indexStaticMap optionsTuple

/-- `c_str()` of an element of `immortal_strings`, as a `std::string_view`. -/
def cStr (string : Text) (entry : Nat) : StringView := ⟨string.takeWhile (· ≠ 0), some entry⟩

/-- `new_parameters` and `immortal_strings`. -/
structure Processed where
  parameters : List Parameter
  immortalStrings : List Text

/-- One round of the loop of `process_args`; `none` where it is undefined, because it subscripts
`immortal_strings` or `new_parameters` out of range. -/
def processArg (makeAddress : Text → Bool) (i : Nat) (s : Processed) (raw : Text) :
    Option (Except Exit Processed) :=
  if raw = text "--help" then some (.error .help)
  else
    match raw.idxOf? 61 with
    | none => some (.error (.message
        (text "Wrong parameter format: " ++ raw ++ text "! (no equals symbol)")))
    | some equalsPos =>
      let parameterString := raw.take equalsPos
      let value := raw.drop (equalsPos + 1)
      if i < s.immortalStrings.length then
        let immortalStrings := s.immortalStrings.set i value
        if value.isEmpty then
          some (.error (.message (text "Empty value: " ++ parameterString ++ text "!")))
        else
          match optionsIndices.lookup parameterString with
          | none => some (.error (.message
              (text "Wrong parameter: " ++ parameterString ++ text "! seek help: --help.")))
          | some index =>
            s.parameters[index]?.map fun parameter =>
              (parameter.trySetVal makeAddress (cStr value i)).map fun parameter =>
                { parameters := s.parameters.set index parameter, immortalStrings }
      else none

/-- The loop, from the argument `i` on. -/
def processFrom (makeAddress : Text → Bool) :
    Nat → Processed → List CString → Option (Except Exit Processed)
  | _, s, [] => some (.ok s)
  | i, s, arg :: args =>
    match processArg makeAddress i s arg.chars with
    | some (.ok s) => processFrom makeAddress (i + 1) s args
    | r => r

/-- `process_args`, where `argc` is the length of `argv`. -/
def processArgs (makeAddress : Text → Bool) (argv : List CString) :
    Option (Except Exit Processed) :=
  processFrom makeAddress 1 ⟨parameters, .replicate 128 []⟩ argv.tail

/-- The text before the first `=`. -/
def optionOf (raw : Text) : Text := raw.takeWhile (· ≠ 61)

/-- The text after the first `=`. -/
def valueOf (raw : Text) : Text := (raw.dropWhile (· ≠ 61)).tail

/-- The argument gives an option a value that the option takes. -/
def Accepted (makeAddress : Text → Bool) (raw : Text) : Prop :=
  61 ∈ raw ∧ valueOf raw ≠ [] ∧ ∃ (i : Nat) (p : Parameter) (x : ParameterValue),
    optionsTuple[i]? = some (optionOf raw) ∧ parameters[i]? = some p ∧
      p.Reads makeAddress (valueOf raw) x

/-- The value in the last argument that names the option. -/
def lastValue (args : List CString) (name : Text) : Option Text :=
  (args.filter (optionOf ·.chars = name)).getLast?.map (valueOf ·.chars)

theorem idxOf?_equals {raw : Text} {pos : Nat} (h : raw.idxOf? 61 = some pos) :
    61 ∈ raw ∧ raw.take pos = optionOf raw ∧ raw.drop (pos + 1) = valueOf raw := by
  obtain ⟨hlt, heq, hbefore⟩ := List.idxOf?_eq_some_iff.mp h
  have hsplit : raw = raw.take pos ++ 61 :: raw.drop (pos + 1) := by
    rw [← heq, List.getElem_cons_drop, List.take_append_drop]
  have hname : ∀ c ∈ raw.take pos, c ≠ 61 := by
    intro c hc he
    obtain ⟨j, hj, rfl⟩ := List.getElem_of_mem hc
    rw [List.length_take] at hj
    exact hbefore j (by omega) (by simpa using he)
  generalize raw.take pos = name at hsplit hname ⊢
  generalize raw.drop (pos + 1) = value at hsplit ⊢
  have htake : name.takeWhile (· ≠ 61) = name :=
    List.takeWhile_eq_self_iff.mpr fun c hc => by simpa using hname c hc
  have hdrop : name.dropWhile (· ≠ 61) = [] :=
    List.dropWhile_eq_nil_iff.mpr fun c hc => by simpa using hname c hc
  subst hsplit
  refine ⟨by simp, ?_, ?_⟩
  · rw [optionOf, List.takeWhile_append, htake]
    simp
  · rw [valueOf, List.dropWhile_append, hdrop]
    simp

theorem parameters_length : parameters.length = optionsTuple.length := rfl

theorem options_inj {i j : Nat} {name : Text} (hi : optionsTuple[i]? = some name)
    (hj : optionsTuple[j]? = some name) : i = j := by
  have hnodup : optionsTuple.Nodup := by decide
  obtain ⟨hlt, hget⟩ := List.getElem?_eq_some_iff.mp hi
  obtain ⟨hlt', hget'⟩ := List.getElem?_eq_some_iff.mp hj
  exact (List.getElem_inj hnodup).mp (hget.trans hget'.symm)

theorem lookup_options {key : Text} {i : Nat} :
    optionsIndices.lookup key = some i ↔ optionsTuple[i]? = some key :=
  indexStaticMap_lookup (by decide)

theorem cStr_valueOf (arg : CString) (i : Nat) :
    cStr (valueOf arg.chars) i = ⟨valueOf arg.chars, some i⟩ := by
  have hsub : valueOf arg.chars ⊆ arg.chars :=
    ((List.tail_sublist _).trans (List.dropWhile_sublist _)).subset
  have htake : (valueOf arg.chars).takeWhile (· ≠ 0) = valueOf arg.chars := by
    refine List.takeWhile_eq_self_iff.mpr fun c hc => ?_
    simpa using fun he : c = 0 => arg.noNul (he ▸ hsub hc)
  rw [cStr, htake]

/-- What a round does with an argument that names an option and has a value for it. -/
def setOption (makeAddress : Text → Bool) (i : Nat) (s : Processed) (raw : Text) (index : Nat) :
    Option (Except Exit Processed) :=
  s.parameters[index]?.map fun p =>
    (p.trySetVal makeAddress ⟨valueOf raw, some i⟩).map fun q =>
      ⟨s.parameters.set index q, s.immortalStrings.set i (valueOf raw)⟩

/-- The ways through a round. -/
theorem processArg_cases (makeAddress : Text → Bool) (i : Nat) (s : Processed) (arg : CString) :
    (61 ∉ arg.chars ∧ ∃ e, processArg makeAddress i s arg.chars = some (.error e)) ∨
    (61 ∈ arg.chars ∧ s.immortalStrings.length ≤ i ∧
      processArg makeAddress i s arg.chars = none) ∨
    (61 ∈ arg.chars ∧ i < s.immortalStrings.length ∧
      ((valueOf arg.chars = [] ∨ ∀ index : Nat, optionsTuple[index]? ≠ some (optionOf arg.chars)) ∧
        (∃ e, processArg makeAddress i s arg.chars = some (.error e)) ∨
      (valueOf arg.chars ≠ [] ∧ ∃ index : Nat, optionsTuple[index]? = some (optionOf arg.chars) ∧
        processArg makeAddress i s arg.chars = setOption makeAddress i s arg.chars index))) := by
  unfold processArg
  by_cases hhelp : arg.chars = text "--help"
  · exact .inl ⟨by rw [hhelp]; decide, .help, if_pos hhelp⟩
  · rw [if_neg hhelp]
    cases hpos : arg.chars.idxOf? 61 with
    | none => exact .inl ⟨List.idxOf?_eq_none_iff.mp hpos, _, rfl⟩
    | some pos =>
      obtain ⟨hm, hname, hvalue⟩ := idxOf?_equals hpos
      simp only [hname, hvalue, cStr_valueOf]
      by_cases hi : i < s.immortalStrings.length
      · refine .inr (.inr ⟨hm, hi, ?_⟩)
        rw [if_pos hi]
        by_cases hempty : valueOf arg.chars = []
        · exact .inl ⟨.inl hempty, _, by rw [hempty]; rfl⟩
        · rw [if_neg (by simpa using hempty)]
          cases hl : optionsIndices.lookup (optionOf arg.chars) with
          | none =>
            refine .inl ⟨.inr fun index hindex => ?_, _, rfl⟩
            rw [lookup_options.mpr hindex] at hl
            cases hl
          | some index => exact .inr ⟨hempty, index, lookup_options.mp hl, rfl⟩
      · exact .inr (.inl ⟨hm, Nat.le_of_not_lt hi, if_neg hi⟩)

/-- The state of the loop when these arguments have been processed. -/
structure Holds (makeAddress : Text → Bool) (done : List CString) (s : Processed) : Prop where
  types : s.parameters.map Parameter.blank = parameters.map Parameter.blank
  size : s.immortalStrings.length = 128
  values : ∀ (i : Nat) (p : Parameter) (name : Text), s.parameters[i]? = some p →
    optionsTuple[i]? = some name → match lastValue done name with
    | none => parameters[i]? = some p
    | some value => p.Reads makeAddress value p.getData
  views : ∀ (i : Nat) (p : Parameter) (view : StringView) (j : Nat),
    s.parameters[i]? = some p → p.view = some view → view.entry = some j →
    j ≤ done.length ∧ s.immortalStrings[j]? = some view.chars

theorem start_holds (makeAddress : Text → Bool) :
    Holds makeAddress [] ⟨parameters, .replicate 128 []⟩ where
  types := rfl
  size := List.length_replicate
  values := fun i p name hp _ => hp
  views := by
    intro i p view j hp hview hj
    have hall : ∀ p ∈ parameters, ∀ view ∈ p.view, view.entry = none := by decide
    have hnone := hall p (List.mem_of_getElem? hp) view hview
    rw [hnone] at hj
    cases hj

theorem lastValue_append (xs ys : List CString) (name : Text) :
    lastValue (xs ++ ys) name = (lastValue ys name).or (lastValue xs name) := by
  simp only [lastValue, List.filter_append, List.getLast?_append, Option.map_or]

theorem lastValue_singleton (arg : CString) (name : Text) :
    lastValue [arg] name =
      if optionOf arg.chars = name then some (valueOf arg.chars) else none := by
  by_cases h : optionOf arg.chars = name <;> simp [lastValue, h]

theorem Parameter.Reads.congr {makeAddress : Text → Bool} {p q : Parameter} {chars : Text}
    {x : ParameterValue} (h : p.Reads makeAddress chars x) (hb : p.blank = q.blank) :
    q.Reads makeAddress chars x := by
  cases p <;> cases q <;>
    simp only [Parameter.blank, Parameter.smallNumber.injEq, Parameter.string.injEq,
      Parameter.ip.injEq, ParameterBase.mk.injEq, true_and, reduceCtorEq] at hb
  all_goals simpa only [Parameter.Reads, hb.1, hb.2] using h

theorem Parameter.Reads.set {makeAddress : Text → Bool} {p : Parameter} {chars : Text}
    {x : ParameterValue} (h : p.Reads makeAddress chars x) (entry : Option Nat) :
    ∃ q, p.trySetVal makeAddress ⟨chars, entry⟩ = .ok q := by
  cases p with
  | smallNumber p =>
    obtain ⟨n, hn, hle, hlim, -⟩ := h
    exact ⟨_, Except.map_eq_ok.mpr ⟨_, trySetNumber_eq_ok.mpr ⟨n, hn, hle, hlim, rfl⟩, rfl⟩⟩
  | string p =>
    exact ⟨_, Except.map_eq_ok.mpr
      ⟨_, trySetValInternal_eq_ok.mpr ⟨isInLimits_view.mpr h.1, rfl⟩, rfl⟩⟩
  | ip p =>
    exact ⟨_, Except.map_eq_ok.mpr
      ⟨_, trySetIp_eq_ok.mpr ⟨h.1, isInLimits_view.mpr h.2.1, rfl⟩, rfl⟩⟩

variable {makeAddress : Text → Bool} {done args : List CString} {arg : CString} {s s' : Processed}

/-- Each option has the type and the limits it started with. -/
theorem Holds.blank (h : Holds makeAddress done s) (i : Nat) :
    s.parameters[i]?.map Parameter.blank = parameters[i]?.map Parameter.blank := by
  have hi := congrArg (·[i]?) h.types
  simpa only [List.getElem?_map] using hi

theorem Holds.parameter (h : Holds makeAddress done s) {i : Nat} {p : Parameter}
    (hp : parameters[i]? = some p) : ∃ q, s.parameters[i]? = some q ∧ q.blank = p.blank := by
  have hblank := h.blank i
  rw [hp, Option.map_some, Option.map_eq_some_iff] at hblank
  exact hblank

/-- A round that goes on sets the option that the argument names. -/
theorem Holds.step (h : Holds makeAddress done s) (hlen : done.length < 127) {index : Nat}
    (hname : optionsTuple[index]? = some (optionOf arg.chars))
    (hr : setOption makeAddress (done.length + 1) s arg.chars index = some (.ok s')) :
    Holds makeAddress (done ++ [arg]) s' := by
  obtain ⟨p, hp, hset⟩ := Option.map_eq_some_iff.mp hr
  obtain ⟨q, hq, rfl⟩ := Except.map_eq_ok.mp hset
  obtain ⟨hreads, hblank, hview⟩ := Parameter.trySetVal_eq_ok.mp hq
  have hlt : index < s.parameters.length := (List.getElem?_eq_some_iff.mp hp).1
  refine ⟨?_, by simpa using h.size, ?_, ?_⟩
  · rw [← h.types, List.map_set, hblank]
    refine List.ext_getElem? fun i => ?_
    by_cases hi : index = i
    · subst hi
      simp [hlt, ← (List.getElem?_eq_some_iff.mp hp).2]
    · simp [hi]
  · intro i r name hr hname'
    rw [lastValue_append, lastValue_singleton]
    by_cases hi : index = i
    · subst hi
      obtain rfl : optionOf arg.chars = name := Option.some.inj (hname.symm.trans hname')
      rw [List.getElem?_set_self hlt] at hr
      obtain rfl := Option.some.inj hr
      simpa using hreads.congr hblank.symm
    · have hne : optionOf arg.chars ≠ name := by
        intro he
        subst he
        exact hi (options_inj hname hname')
      rw [List.getElem?_set_ne hi] at hr
      rw [if_neg hne, Option.none_or]
      exact h.values i r name hr hname'
  · intro i r view j hr hview' hj
    have hsize := h.size
    rw [List.length_append, List.length_singleton]
    by_cases hi : index = i
    · subst hi
      rw [List.getElem?_set_self hlt] at hr
      obtain rfl := Option.some.inj hr
      rw [hview', eq_comm, Option.map_eq_some_iff] at hview
      obtain ⟨-, -, rfl⟩ := hview
      obtain rfl : done.length + 1 = j := by simpa using hj
      exact ⟨Nat.le_refl _, List.getElem?_set_self (by omega)⟩
    · rw [List.getElem?_set_ne hi] at hr
      obtain ⟨hle, hget⟩ := h.views i r view j hr hview' hj
      refine ⟨by omega, ?_⟩
      rw [List.getElem?_set_ne (by omega)]
      exact hget

/-- A round goes on exactly with an accepted argument. -/
theorem Holds.accepts (h : Holds makeAddress done s) (arg : CString) (hlen : done.length < 127) :
    (Accepted makeAddress arg.chars ∧ ∃ s',
      processArg makeAddress (done.length + 1) s arg.chars = some (.ok s') ∧
        Holds makeAddress (done ++ [arg]) s') ∨
    (¬ Accepted makeAddress arg.chars ∧ ∃ e,
      processArg makeAddress (done.length + 1) s arg.chars = some (.error e)) := by
  have hsize := h.size
  obtain ⟨hm, he⟩ | ⟨-, hle, -⟩ | ⟨hm, -, ⟨hbad, he⟩ | ⟨hne, index, hname, heq⟩⟩ :=
    processArg_cases makeAddress (done.length + 1) s arg
  · exact .inr ⟨fun ha => hm ha.1, he⟩
  · omega
  · refine .inr ⟨?_, he⟩
    rintro ⟨-, hne, i, p, x, hname, -, -⟩
    exact hbad.elim hne fun hno => hno i hname
  · have hlt : index < parameters.length := (List.getElem?_eq_some_iff.mp hname).1
    obtain ⟨p₀, hp₀⟩ : ∃ p, parameters[index]? = some p := ⟨_, List.getElem?_eq_getElem hlt⟩
    obtain ⟨p, hp, hblank⟩ := h.parameter hp₀
    have hset : setOption makeAddress (done.length + 1) s arg.chars index =
        some ((p.trySetVal makeAddress ⟨valueOf arg.chars, some (done.length + 1)⟩).map fun q =>
          ⟨s.parameters.set index q, s.immortalStrings.set (done.length + 1)
            (valueOf arg.chars)⟩) := by
      rw [setOption, hp, Option.map_some]
    cases hq : p.trySetVal makeAddress ⟨valueOf arg.chars, some (done.length + 1)⟩ with
    | ok q =>
      rw [hq, Except.map] at hset
      have hreads := (Parameter.trySetVal_eq_ok.mp hq).1.congr hblank
      exact .inl ⟨⟨hm, hne, index, p₀, _, hname, hp₀, hreads⟩, _, heq.trans hset,
        h.step hlen hname hset⟩
    | error e =>
      rw [hq, Except.map] at hset
      refine .inr ⟨?_, e, heq.trans hset⟩
      rintro ⟨-, -, i, p', x, hname', hp', hreads⟩
      obtain rfl := options_inj hname hname'
      obtain rfl : p₀ = p' := Option.some.inj (hp₀.symm.trans hp')
      obtain ⟨q, hq'⟩ := (hreads.congr hblank.symm).set (some (done.length + 1))
      rw [hq] at hq'
      cases hq'

/-- The rest of the loop returns exactly when it is accepted, if `immortal_strings` has an element
for each of its arguments. -/
theorem Holds.run (h : Holds makeAddress done s) (hlen : done.length + args.length ≤ 127) :
    ((∀ arg ∈ args, Accepted makeAddress arg.chars) ∧ ∃ s',
      processFrom makeAddress (done.length + 1) s args = some (.ok s') ∧
        Holds makeAddress (done ++ args) s') ∨
    ((∃ arg ∈ args, ¬ Accepted makeAddress arg.chars) ∧ ∃ e,
      processFrom makeAddress (done.length + 1) s args = some (.error e)) := by
  induction args generalizing done s with
  | nil => exact .inl ⟨by simp, s, rfl, by simpa using h⟩
  | cons arg args ih =>
    rw [List.length_cons] at hlen
    obtain ⟨ha, s', hstep, h'⟩ | ⟨ha, e, hstep⟩ := h.accepts arg (by omega)
    · rw [processFrom, hstep]
      have hlen' : (done ++ [arg]).length + args.length ≤ 127 := by simp; omega
      have hcount : (done ++ [arg]).length = done.length + 1 := by simp
      have hrest := ih h' hlen'
      rw [hcount, List.append_assoc, List.singleton_append] at hrest
      obtain ⟨hall, hok⟩ | ⟨⟨b, hb, hno⟩, herr⟩ := hrest
      · exact .inl ⟨List.forall_mem_cons.mpr ⟨ha, hall⟩, hok⟩
      · exact .inr ⟨⟨b, List.mem_cons_of_mem _ hb, hno⟩, herr⟩
    · rw [processFrom, hstep]
      exact .inr ⟨⟨arg, List.mem_cons_self, ha⟩, e, rfl⟩

variable {argv : List CString}

/-- The call, if `immortal_strings` has an element for each argument. -/
theorem processArgs_cases (makeAddress : Text → Bool) (h : argv.length ≤ 128) :
    ((∀ arg ∈ argv.tail, Accepted makeAddress arg.chars) ∧ ∃ s,
      processArgs makeAddress argv = some (.ok s) ∧ Holds makeAddress argv.tail s) ∨
    ((∃ arg ∈ argv.tail, ¬ Accepted makeAddress arg.chars) ∧ ∃ e,
      processArgs makeAddress argv = some (.error e)) := by
  have hlen : ([] : List CString).length + argv.tail.length ≤ 127 := by simp; omega
  simpa [processArgs] using (start_holds makeAddress).run hlen

theorem processArgs_eq_ok (hlen : argv.length ≤ 128)
    (hs : processArgs makeAddress argv = some (.ok s)) :
    (∀ arg ∈ argv.tail, Accepted makeAddress arg.chars) ∧ Holds makeAddress argv.tail s := by
  obtain ⟨hall, t, ht, h⟩ | ⟨-, e, he⟩ := processArgs_cases makeAddress hlen
  · obtain rfl : t = s := by simpa [hs, eq_comm] using ht
    exact ⟨hall, h⟩
  · rw [hs] at he
    cases he

/-- The call returns these values of the options. -/
def Returns (makeAddress : Text → Bool) (argv : List CString) (values : List ParameterValue) :
    Prop :=
  ∃ s, processArgs makeAddress argv = some (.ok s) ∧ s.parameters.map Parameter.getData = values

theorem Parameter.Reads.unique {p q : Parameter} {chars : Text} {x y : ParameterValue}
    (h : p.Reads makeAddress chars x) (h' : q.Reads makeAddress chars y)
    (hb : p.blank = q.blank) : x = y := by
  have h := h.congr hb
  cases q with
  | smallNumber q =>
    obtain ⟨n, hn, -, -, rfl⟩ := h
    obtain ⟨m, hm, -, -, rfl⟩ := h'
    rw [hn.2.2, hm.2.2]
  | string q => exact h.2.trans h'.2.symm
  | ip q => exact h.2.2.trans h'.2.2.symm

/-- The values are those of the last arguments that name the options, whatever the order. -/
theorem Holds.values_eq {done' : List CString} (h : Holds makeAddress done s)
    (h' : Holds makeAddress done' s')
    (hlast : ∀ name, lastValue done name = lastValue done' name) :
    s.parameters.map Parameter.getData = s'.parameters.map Parameter.getData := by
  refine List.ext_getElem? fun i => ?_
  rw [List.getElem?_map, List.getElem?_map]
  have hblank := (h.blank i).trans (h'.blank i).symm
  cases hp : s.parameters[i]? with
  | none =>
    rw [hp, Option.map_none, eq_comm, Option.map_eq_none_iff] at hblank
    rw [hblank]
  | some p =>
    rw [hp, Option.map_some, eq_comm, Option.map_eq_some_iff] at hblank
    obtain ⟨q, hq, hblank⟩ := hblank
    have hlt : i < optionsTuple.length := by
      have hlen := congrArg List.length h.types
      rw [List.length_map, List.length_map, parameters_length] at hlen
      exact hlen ▸ (List.getElem?_eq_some_iff.mp hp).1
    obtain ⟨name, hname⟩ : ∃ name, optionsTuple[i]? = some name :=
      ⟨_, List.getElem?_eq_getElem hlt⟩
    have hv := h.values i p name hp hname
    have hv' := h'.values i q name hq hname
    rw [← hlast name] at hv'
    rw [hq, Option.map_some, Option.map_some]
    cases hl : lastValue done name with
    | none =>
      rw [hl] at hv hv'
      rw [Option.some.inj (hv.symm.trans hv')]
    | some value =>
      rw [hl] at hv hv'
      rw [hv.unique hv' hblank.symm]

/-- Only the arguments themselves and the last values count. -/
theorem Returns.congr {program program' : CString} {args' : List CString}
    {values : List ParameterValue} (hlen : args.length ≤ 127) (hlen' : args'.length ≤ 127)
    (hmem : ∀ arg, arg ∈ args' → arg ∈ args)
    (hlast : ∀ name, lastValue args name = lastValue args' name)
    (h : Returns makeAddress (program :: args) values) :
    Returns makeAddress (program' :: args') values := by
  obtain ⟨s, hs, hvalues⟩ := h
  have hcount : ∀ (program : CString) {args : List CString}, args.length ≤ 127 →
      (program :: args).length ≤ 128 := fun _ _ hle => Nat.succ_le_succ hle
  obtain ⟨hall, hholds⟩ := processArgs_eq_ok (hcount program hlen) hs
  obtain ⟨-, t, ht, hholds'⟩ | ⟨⟨arg, hm, hno⟩, -⟩ :=
    processArgs_cases makeAddress (hcount program' hlen')
  · exact ⟨t, ht, (hholds.values_eq hholds' hlast).symm.trans hvalues⟩
  · exact absurd (hall arg (hmem arg hm)) hno

theorem Returns.exists (hlen : argv.length ≤ 128)
    (hall : ∀ arg ∈ argv.tail, Accepted makeAddress arg.chars) :
    ∃ values, Returns makeAddress argv values := by
  obtain ⟨-, s, hs, -⟩ | ⟨⟨arg, hm, hno⟩, -⟩ := processArgs_cases makeAddress hlen
  · exact ⟨_, s, hs, rfl⟩
  · exact absurd (hall arg hm) hno

/-- An option that is named has the value that it reads from the last argument naming it. -/
theorem Returns.reads {values : List ParameterValue} (h : Returns makeAddress argv values) (i : Nat)
    (name value : Text) {p : Parameter} (hlen : argv.length ≤ 128)
    (hp : parameters[i]? = some p) (hname : optionsTuple[i]? = some name)
    (hl : lastValue argv.tail name = some value) :
    ∃ x, values[i]? = some x ∧ p.Reads makeAddress value x := by
  obtain ⟨s, hs, rfl⟩ := h
  obtain ⟨-, hholds⟩ := processArgs_eq_ok hlen hs
  obtain ⟨q, hq, hblank⟩ := hholds.parameter hp
  have hv := hholds.values i q name hq hname
  rw [hl] at hv
  exact ⟨q.getData, by rw [List.getElem?_map, hq, Option.map_some], hv.congr hblank⟩

theorem lastValue_eq_none {name : Text} :
    lastValue args name = none ↔ ∀ arg ∈ args, optionOf arg.chars ≠ name := by
  simp [lastValue]

theorem lastValue_exchange (xs : List CString) {ys zs : List CString} {a b : CString}
    (hab : optionOf a.chars ≠ optionOf b.chars)
    (hbetween : ∀ y ∈ ys, optionOf y.chars = optionOf a.chars ∨
      optionOf y.chars = optionOf b.chars → ∃ z ∈ zs, optionOf z.chars = optionOf y.chars)
    (name : Text) :
    lastValue (xs ++ a :: ys ++ b :: zs) name = lastValue (xs ++ b :: ys ++ a :: zs) name := by
  have hsplit : ∀ c d : CString, lastValue (xs ++ c :: ys ++ d :: zs) name =
      (lastValue zs name).or ((lastValue [d] name).or ((lastValue ys name).or
        ((lastValue [c] name).or (lastValue xs name)))) := by
    intro c d
    rw [← List.singleton_append (l := zs), ← List.singleton_append (l := ys)]
    simp only [lastValue_append, Option.or_assoc]
  rw [hsplit, hsplit]
  cases hz : lastValue zs name with
  | some value => simp only [Option.some_or]
  | none =>
    have hz := lastValue_eq_none.mp hz
    have hy : name = optionOf a.chars ∨ name = optionOf b.chars → lastValue ys name = none := by
      intro hn
      refine lastValue_eq_none.mpr fun y hm he => ?_
      subst he
      obtain ⟨z, hm', he⟩ := hbetween y hm hn
      exact hz z hm' he
    simp only [lastValue_singleton]
    by_cases ha : optionOf a.chars = name
    · rw [hy (.inl ha.symm), if_pos ha, if_neg fun hb => hab (ha.trans hb.symm)]
      simp only [Option.none_or]
    · by_cases hb : optionOf b.chars = name
      · rw [hy (.inr hb.symm), if_neg ha, if_pos hb]
        simp only [Option.none_or]
      · rw [if_neg ha, if_neg hb]

/-- Which command lines the server takes, and what the options are then. -/
theorem process_args_exact (makeAddress : Text → Bool) (argv : List CString)
    (hargc : argv.length ≤ 128) :
    processArgs makeAddress argv ≠ none ∧
    ((∃ s, processArgs makeAddress argv = some (.ok s)) ↔
      ∀ arg ∈ argv.tail, Accepted makeAddress arg.chars) ∧
    (∀ s, processArgs makeAddress argv = some (.ok s) →
      s.parameters.length = optionsTuple.length ∧
      ∀ (i : Nat) (p : Parameter) (name : Text), s.parameters[i]? = some p →
        optionsTuple[i]? = some name →
          (lastValue argv.tail name = none → parameters[i]? = some p) ∧
          ∀ value, lastValue argv.tail name = some value →
            p.Reads makeAddress value p.getData) ∧
    ∀ (program : CString) (xs ys zs : List CString) (a b : CString),
      argv = program :: (xs ++ a :: ys ++ b :: zs) → optionOf a.chars ≠ optionOf b.chars →
      (∀ y ∈ ys, optionOf y.chars = optionOf a.chars ∨ optionOf y.chars = optionOf b.chars →
        ∃ z ∈ zs, optionOf z.chars = optionOf y.chars) →
      ∀ values, Returns makeAddress argv values ↔
        Returns makeAddress (program :: (xs ++ b :: ys ++ a :: zs)) values := by
  refine ⟨?_, ?_, ?_, ?_⟩
  · obtain ⟨-, s, hs, -⟩ | ⟨-, e, he⟩ := processArgs_cases makeAddress hargc
    · simp [hs]
    · simp [he]
  · constructor
    · rintro ⟨s, hs⟩
      exact (processArgs_eq_ok hargc hs).1
    · intro hall
      obtain ⟨values, s, hs, -⟩ := Returns.exists hargc hall
      exact ⟨s, hs⟩
  · intro s hs
    obtain ⟨-, h⟩ := processArgs_eq_ok hargc hs
    refine ⟨by simpa [parameters_length] using congrArg List.length h.types, ?_⟩
    intro i p name hp hname
    have hv := h.values i p name hp hname
    cases hl : lastValue argv.tail name with
    | none =>
      rw [hl] at hv
      exact ⟨fun _ => hv, by simp⟩
    | some value =>
      rw [hl] at hv
      exact ⟨by simp, fun value' he => Option.some.inj he ▸ hv⟩
  · rintro program xs ys zs a b rfl hab hbetween values
    have hlen : (xs ++ a :: ys ++ b :: zs).length ≤ 127 := Nat.le_of_succ_le_succ hargc
    have hlen' : (xs ++ b :: ys ++ a :: zs).length ≤ 127 := by simpa using hlen
    have hmem : ∀ arg, arg ∈ xs ++ a :: ys ++ b :: zs ↔ arg ∈ xs ++ b :: ys ++ a :: zs := by
      intro arg
      simp only [List.mem_append, List.mem_cons]
      grind
    have hlast := lastValue_exchange xs hab hbetween
    exact ⟨Returns.congr hlen hlen' (fun arg => (hmem arg).mpr) hlast,
      Returns.congr hlen' hlen (fun arg => (hmem arg).mp) fun name => (hlast name).symm⟩

/-- A value that has an `=` in it, and an exchange of the first and the last argument. -/
theorem process_args_exact_exchanged :
    ∃ values, Returns (fun _ => false)
      [⟨text "mydak-server", by decide⟩, ⟨text "--db-password=cccc", by decide⟩,
        ⟨text "--db-username=a=bc", by decide⟩, ⟨text "--db-hostname=localhost", by decide⟩]
      values := by
  let program : CString := ⟨text "mydak-server", by decide⟩
  let a : CString := ⟨text "--db-hostname=localhost", by decide⟩
  let y : CString := ⟨text "--db-username=a=bc", by decide⟩
  let b : CString := ⟨text "--db-password=cccc", by decide⟩
  obtain ⟨-, hreturns, -, hexchange⟩ :=
    process_args_exact (fun _ => false) [program, a, y, b] (by decide)
  have hall : ∀ arg ∈ [a, y, b], Accepted (fun _ => false) arg.chars := by
    simp only [List.forall_mem_cons]
    refine ⟨?_, ?_, ?_, by simp⟩
    · exact ⟨by decide, by decide, 0, _, _, by decide, rfl, by decide, by decide, rfl⟩
    · exact ⟨by decide, by decide, 1, _, _, by decide, rfl, by decide, rfl⟩
    · exact ⟨by decide, by decide, 2, _, _, by decide, rfl, by decide, rfl⟩
  obtain ⟨s, hs⟩ := hreturns.mpr hall
  exact ⟨_, (hexchange program [] [y] [] a b rfl (by decide) (by decide) _).mp ⟨s, hs, rfl⟩⟩

/-- The option of an argument that is exchanged may be set again in between. -/
theorem not_exchange_arguments :
    ¬ ∀ (makeAddress : Text → Bool) (program : CString) (xs ys zs : List CString) (a b : CString),
      (program :: (xs ++ a :: ys ++ b :: zs)).length ≤ 128 →
      optionOf a.chars ≠ optionOf b.chars →
      ∀ values, Returns makeAddress (program :: (xs ++ a :: ys ++ b :: zs)) values ↔
        Returns makeAddress (program :: (xs ++ b :: ys ++ a :: zs)) values := by
  intro h
  let program : CString := ⟨text "mydak-server", by decide⟩
  let a : CString := ⟨text "--db-username=aaaa", by decide⟩
  let y : CString := ⟨text "--db-username=bbbb", by decide⟩
  let b : CString := ⟨text "--db-password=cccc", by decide⟩
  have hreturns : ∃ values, Returns (fun _ => false) [program, a, y, b] values := by
    refine Returns.exists (by decide) ?_
    simp only [List.tail_cons, List.forall_mem_cons]
    refine ⟨?_, ?_, ?_, by simp⟩
    · exact ⟨by decide, by decide, 1, _, _, by decide, rfl, by decide, rfl⟩
    · exact ⟨by decide, by decide, 1, _, _, by decide, rfl, by decide, rfl⟩
    · exact ⟨by decide, by decide, 2, _, _, by decide, rfl, by decide, rfl⟩
  obtain ⟨values, hvalues⟩ := hreturns
  have hvalues' : Returns (fun _ => false) [program, b, y, a] values :=
    (h _ program [] [y] [] a b (by decide) (by decide) values).mp hvalues
  obtain ⟨x, hx, -, rfl⟩ := hvalues.reads 1 (text "--db-username") (text "bbbb")
    (by decide) rfl (by decide) (by decide)
  obtain ⟨x, hx', -, rfl⟩ := hvalues'.reads 1 (text "--db-username") (text "aaaa")
    (by decide) rfl (by decide) (by decide)
  exact absurd (hx.symm.trans hx') (by decide)

theorem processFrom_append {i : Nat} {xs : List CString} (ys : List CString)
    (h : processFrom makeAddress i s xs = some (.ok s')) :
    processFrom makeAddress i s (xs ++ ys) = processFrom makeAddress (i + xs.length) s' ys := by
  induction xs generalizing i s with
  | nil =>
    obtain rfl : s = s' := by simpa [processFrom] using h
    rfl
  | cons x xs ih =>
    rw [processFrom] at h
    rw [List.cons_append, processFrom]
    split at h
    · rename_i t ht
      rw [List.length_cons, Nat.add_comm xs.length, ← Nat.add_assoc]
      exact ih h
    · rename_i hno
      exact absurd h (hno s')

theorem processFrom_append_error {i : Nat} {xs : List CString} (ys : List CString) {e : Exit}
    (h : processFrom makeAddress i s xs = some (.error e)) :
    processFrom makeAddress i s (xs ++ ys) = some (.error e) := by
  induction xs generalizing i s with
  | nil => simp [processFrom] at h
  | cons x xs ih =>
    rw [processFrom] at h
    rw [List.cons_append, processFrom]
    split at h
    · exact ih h
    · rename_i hno
      rw [h]

/-- With more arguments, the subscripts of `immortal_strings` go out of range at the argument 128,
if the loop comes so far. -/
theorem processArgs_past (makeAddress : Text → Bool) (h : 128 < argv.length) :
    ((∀ arg ∈ (argv.take 128).tail, Accepted makeAddress arg.chars) ∧
      (∃ arg, argv[128]? = some arg ∧ 61 ∈ arg.chars) ∧ processArgs makeAddress argv = none) ∨
    (((∃ arg ∈ (argv.take 128).tail, ¬ Accepted makeAddress arg.chars) ∨
      ∃ arg, argv[128]? = some arg ∧ 61 ∉ arg.chars) ∧
      ∃ e, processArgs makeAddress argv = some (.error e)) := by
  have hlen : (argv.take 128).length ≤ 128 := by simp
  have hcases := processArgs_cases makeAddress hlen
  cases argv with
  | nil => simp at h
  | cons program args =>
    have htake : ((program :: args).take 128).tail = args.take 127 := rfl
    have hlt : 127 < args.length := Nat.lt_of_succ_lt_succ h
    have hdrop : args.drop 127 = args[127] :: args.drop 128 := List.drop_eq_getElem_cons hlt
    have hget : (program :: args)[128]? = some args[127] := by
      rw [List.getElem?_cons_succ, List.getElem?_eq_getElem hlt]
    generalize args[127] = arg at hdrop hget
    have hsplit : args.take 127 ++ arg :: args.drop 128 = args := by
      rw [← hdrop, List.take_append_drop]
    simp only [processArgs, htake, List.tail_cons] at hcases ⊢
    rw [hget]
    obtain ⟨hall, s, hs, hholds⟩ | ⟨hbad, e, he⟩ := hcases
    · have hcount : (args.take 127).length = 127 := by rw [List.length_take]; omega
      have hsize := hholds.size
      have hrest := processFrom_append (arg :: args.drop 128) hs
      rw [hsplit, hcount, processFrom] at hrest
      obtain ⟨hm, e, he⟩ | ⟨hm, -, he⟩ | ⟨-, hlt', -⟩ :=
        processArg_cases makeAddress (1 + 127) s arg
      · rw [he] at hrest
        exact .inr ⟨.inr ⟨arg, rfl, hm⟩, e, hrest⟩
      · rw [he] at hrest
        exact .inl ⟨hall, ⟨arg, rfl, hm⟩, hrest⟩
      · omega
    · have hrest := processFrom_append_error (arg :: args.drop 128) he
      rw [hsplit] at hrest
      exact .inr ⟨.inl hbad, e, hrest⟩

/-- The views in the parameters lie in elements that have the characters they had. -/
def Stored (s : Processed) : Prop :=
  ∀ p ∈ s.parameters, ∀ view, p.view = some view → ∀ j, view.entry = some j →
    s.immortalStrings[j]? = some view.chars

theorem Holds.stored (h : Holds makeAddress done s) : Stored s := by
  intro p hp view hview j hj
  obtain ⟨i, hi⟩ := List.mem_iff_getElem?.mp hp
  exact (h.views i p view j hi hview hj).2

/-- When the subscripts are in range and the views last. -/
theorem argument_storage_iff (makeAddress : Text → Bool) (argv : List CString) :
    (processArgs makeAddress argv ≠ none ∧
      ∀ s, processArgs makeAddress argv = some (.ok s) → Stored s) ↔
    argv.length ≤ 128 ∨ (∃ arg ∈ (argv.take 128).tail, ¬ Accepted makeAddress arg.chars) ∨
      ∃ arg, argv[128]? = some arg ∧ 61 ∉ arg.chars := by
  by_cases hlen : argv.length ≤ 128
  · refine iff_of_true ?_ (.inl hlen)
    refine ⟨?_, fun s hs => (processArgs_eq_ok hlen hs).2.stored⟩
    obtain ⟨-, s, hs, -⟩ | ⟨-, e, he⟩ := processArgs_cases makeAddress hlen
    · simp [hs]
    · simp [he]
  · obtain ⟨hall, ⟨arg, harg, hm⟩, hnone⟩ | ⟨hbad, e, he⟩ :=
      processArgs_past makeAddress (Nat.lt_of_not_le hlen)
    · refine iff_of_false (fun h => h.1 hnone) ?_
      rintro (hle | ⟨b, hb, hno⟩ | ⟨b, hb, hno⟩)
      · exact hlen hle
      · exact hno (hall b hb)
      · obtain rfl := Option.some.inj (harg.symm.trans hb)
        exact hno hm
    · refine iff_of_true ?_ (.inr hbad)
      simp [he]

/-- The same option, 128 times. -/
theorem not_argument_storage :
    ¬ ∀ (makeAddress : Text → Bool) (argv : List CString),
      processArgs makeAddress argv ≠ none ∧
        ∀ s, processArgs makeAddress argv = some (.ok s) → Stored s := by
  intro h
  let program : CString := ⟨text "mydak-server", by decide⟩
  let user : CString := ⟨text "--db-username=user", by decide⟩
  have haccepted : Accepted (fun _ => false) user.chars :=
    ⟨by decide, by decide, 1, _, _, by decide, rfl, by decide, rfl⟩
  have hlen : 128 < (program :: List.replicate 128 user).length := by simp
  obtain ⟨-, -, hnone⟩ | ⟨⟨b, hb, hno⟩ | ⟨b, hb, hno⟩, -⟩ :=
    processArgs_past (fun _ => false) hlen
  · exact (h _ _).1 hnone
  · have hmem : b ∈ List.replicate 127 user := by simpa using hb
    exact hno (List.eq_of_mem_replicate hmem ▸ haccepted)
  · obtain rfl : user = b := by simpa using hb
    exact hno (by decide)

end MydakServer.Args
