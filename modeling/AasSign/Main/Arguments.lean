import AasSign.Auth.Login

/-! # The arguments of `sign`

The loop of `sign_main` over its arguments. An argument is an option with its value, a switch or a
file; of an option that is given more than once the last value counts.
-/

namespace AasSign

open Foundation

/-- `struct Config`. -/
structure Config where
  endpoint : Bytes
  account : Bytes
  profile : Bytes
  token : Bytes
  timestampUrl : Bytes
  noTimestamp : Bool
  msiDse : Bool
  recursive : Bool
  osslsigncode : Bytes
  caBundle : Bytes
  insecure : Bool
  dumpCms : Bytes
  oidcClientId : Bytes
  oidcTenantId : Bytes
  deriving DecidableEq

def defaultTsaUrl : Bytes := ascii "http://timestamp.acs.microsoft.com/timestamping/RFC3161"

/-- How many files may be signed at a time. -/
abbrev Workers := { n : Nat // 1 ≤ n }

/-- `std::max(1, n)`. -/
def Workers.ofInt (n : Int) : Workers := ⟨(max 1 n).toNat, by omega⟩

/-- The variables of the loop. -/
structure SignArguments where
  config : Config
  files : List Bytes
  maxParallel : Workers
  asArg : Bytes
  deriving DecidableEq

/-- The variables before the loop. -/
def SignArguments.start (caBundle : Bytes) (insecure : Bool) : SignArguments where
  config :=
    { endpoint := [], account := [], profile := [], token := [], timestampUrl := defaultTsaUrl,
      noTimestamp := false, msiDse := false, recursive := false, osslsigncode := [], caBundle,
      insecure, dumpCms := [], oidcClientId := [], oidcTenantId := [] }
  files := []
  maxParallel := ⟨8, by decide⟩
  asArg := []

/-- Why the loop does not come to its end. -/
inductive SignStop where
  | help
  | version
  | unknown (arg : Bytes)
  /-- The number has no `int`. -/
  | overflow
  deriving DecidableEq

/-- `atoi`, which is undefined on a number that has no `int`. -/
def atoi (s : Bytes) : Option Int :=
  let (negative, number) := splitSign (s.dropWhile isSpaceByte)
  let value : Int := digitsValue 10 (leadingDigits decimalValue number)
  let value := if negative then -value else value
  if value < -2 ^ 31 ∨ 2 ^ 31 ≤ value then none else some value

/-- An option that takes a value. -/
inductive SignFlag where
  | as
  | endpoint
  | account
  | profile
  | token
  | oidcClientId
  | oidcTenantId
  | dumpCms
  | timestampUrl
  | osslsigncode
  | maxParallel
  deriving DecidableEq

/-- An option on its own. -/
inductive SignSwitch where
  | noTimestamp
  | msiDse
  | recursive
  deriving DecidableEq

namespace SignFlag

def text : SignFlag → Bytes
  | as => ascii "--as"
  | endpoint => ascii "--endpoint"
  | account => ascii "--account"
  | profile => ascii "--profile"
  | token => ascii "--token"
  | oidcClientId => ascii "--oidc-client-id"
  | oidcTenantId => ascii "--oidc-tenant-id"
  | dumpCms => ascii "--dump-cms"
  | timestampUrl => ascii "--timestamp-url"
  | osslsigncode => ascii "--osslsigncode"
  | maxParallel => ascii "--max-parallel"

def all : List SignFlag :=
  [as, endpoint, account, profile, token, oidcClientId, oidcTenantId, dumpCms, timestampUrl,
    osslsigncode, maxParallel]

/-- The option that an argument is. -/
def ofText (arg : Bytes) : Option SignFlag := all.find? fun flag => flag.text = arg

end SignFlag

namespace SignSwitch

def text : SignSwitch → Bytes
  | noTimestamp => ascii "--no-timestamp"
  | msiDse => ascii "--msi-dse"
  | recursive => ascii "--recursive"

def all : List SignSwitch := [noTimestamp, msiDse, recursive]

def ofText (arg : Bytes) : Option SignSwitch := all.find? fun switch => switch.text = arg

end SignSwitch

namespace SignArguments

/-- What the value of an option sets. -/
def withValue (o : SignArguments) (value : Bytes) : SignFlag → Except SignStop SignArguments
  | .as => .ok { o with asArg := value }
  | .endpoint => .ok { o with config.endpoint := value }
  | .account => .ok { o with config.account := value }
  | .profile => .ok { o with config.profile := value }
  | .token => .ok { o with config.token := value }
  | .oidcClientId => .ok { o with config.oidcClientId := value }
  | .oidcTenantId => .ok { o with config.oidcTenantId := value }
  | .dumpCms => .ok { o with config.dumpCms := value }
  | .timestampUrl => .ok { o with config.timestampUrl := value }
  | .osslsigncode => .ok { o with config.osslsigncode := value }
  | .maxParallel =>
      match atoi value with
      | none => .error .overflow
      | some n => .ok { o with maxParallel := .ofInt n }

def withSwitch (o : SignArguments) : SignSwitch → SignArguments
  | .noTimestamp => { o with config.noTimestamp := true }
  | .msiDse => { o with config.msiDse := true }
  | .recursive => { o with config.recursive := true }

def withFile (o : SignArguments) (file : Bytes) : SignArguments := { o with files := o.files ++ [file] }

/-- An argument that is no option with a value. -/
def withArg (o : SignArguments) (arg : Bytes) : Except SignStop SignArguments :=
  match SignSwitch.ofText arg with
  | some switch => .ok (o.withSwitch switch)
  | none =>
      if arg = ascii "--help" ∨ arg = ascii "-h" then .error .help
      else if arg = ascii "--version" then .error .version
      else if arg.head? ≠ some 45 then .ok (o.withFile arg)
      else .error (.unknown arg)

end SignArguments

/-- The loop; the last argument is never an option that takes a value. -/
def parseSignArgs (o : SignArguments) : List Bytes → Except SignStop SignArguments
  | [] => .ok o
  | [arg] => o.withArg arg
  | arg :: value :: rest =>
      match SignFlag.ofText arg with
      | some flag =>
          match o.withValue value flag with
          | .error stop => .error stop
          | .ok o' => parseSignArgs o' rest
      | none =>
          match o.withArg arg with
          | .error stop => .error stop
          | .ok o' => parseSignArgs o' (value :: rest)

/-! ## Items -/

inductive SignItem where
  | value (flag : SignFlag) (text : Bytes)
  | switch (switch : SignSwitch)
  | file (name : Bytes)
  deriving DecidableEq

namespace SignItem

/-- The arguments of an item. -/
def args : SignItem → List Bytes
  | value flag text => [flag.text, text]
  | switch which => [which.text]
  | file name => [name]

/-- The item can be given: a file has no dash in front, and a number has an `int`. -/
def Given : SignItem → Prop
  | value .maxParallel text => (atoi text).isSome
  | value _ _ => True
  | switch _ => True
  | file name => name.head? ≠ some 45

/-- The value of an option. -/
def valueOf (flag : SignFlag) : SignItem → Option Bytes
  | value flag' text => if flag' = flag then some text else none
  | _ => none

def fileOf : SignItem → Option Bytes
  | file name => some name
  | _ => none

/-- The number of workers that an item asks for. -/
def workersOf (item : SignItem) : Option Workers :=
  (item.valueOf .maxParallel).map fun text => .ofInt ((atoi text).getD 0)

end SignItem

/-- What the last item with a value says. -/
def lastOf {α : Type} (f : SignItem → Option α) (items : List SignItem) (default : α) : α :=
  (items.filterMap f).getLastD default

/-- The last value of an option. -/
def lastValue (items : List SignItem) (flag : SignFlag) (default : Bytes) : Bytes :=
  lastOf (SignItem.valueOf flag) items default

/-- What the items set. -/
def SignArguments.withItems (o : SignArguments) (items : List SignItem) : SignArguments where
  config :=
    { endpoint := lastValue items .endpoint o.config.endpoint
      account := lastValue items .account o.config.account
      profile := lastValue items .profile o.config.profile
      token := lastValue items .token o.config.token
      timestampUrl := lastValue items .timestampUrl o.config.timestampUrl
      noTimestamp := o.config.noTimestamp || items.contains (.switch .noTimestamp)
      msiDse := o.config.msiDse || items.contains (.switch .msiDse)
      recursive := o.config.recursive || items.contains (.switch .recursive)
      osslsigncode := lastValue items .osslsigncode o.config.osslsigncode
      caBundle := o.config.caBundle
      insecure := o.config.insecure
      dumpCms := lastValue items .dumpCms o.config.dumpCms
      oidcClientId := lastValue items .oidcClientId o.config.oidcClientId
      oidcTenantId := lastValue items .oidcTenantId o.config.oidcTenantId }
  files := o.files ++ items.filterMap SignItem.fileOf
  maxParallel := lastOf SignItem.workersOf items o.maxParallel
  asArg := lastValue items .as o.asArg

/-- The arguments start with none that can be an item. -/
inductive StopsLoop : List Bytes → SignStop → Prop where
  | help {arg : Bytes} (rest : List Bytes) (h : arg = ascii "--help" ∨ arg = ascii "-h") :
      StopsLoop (arg :: rest) .help
  | version (rest : List Bytes) : StopsLoop (ascii "--version" :: rest) .version
  | unknown {arg : Bytes} {rest : List Bytes} (hdash : arg.head? = some 45)
      (hflag : (SignFlag.ofText arg).isSome → rest = []) (hswitch : SignSwitch.ofText arg = none)
      (hhelp : arg ≠ ascii "--help" ∧ arg ≠ ascii "-h") (hversion : arg ≠ ascii "--version") :
      StopsLoop (arg :: rest) (.unknown arg)
  | overflow {text : Bytes} (rest : List Bytes) (h : atoi text = none) :
      StopsLoop (SignFlag.maxParallel.text :: text :: rest) .overflow

/-! ## Texts -/

section Texts

variable {arg : Bytes} {flag : SignFlag} {switch : SignSwitch}

theorem SignFlag.ofText_text (flag : SignFlag) : ofText flag.text = some flag := by
  cases flag <;> decide

theorem SignFlag.ofText_eq_some : ofText arg = some flag ↔ arg = flag.text := by
  constructor
  · intro h
    have hfound := List.find?_some (p := fun flag : SignFlag => decide (flag.text = arg)) h
    exact (of_decide_eq_true hfound).symm
  · rintro rfl
    exact ofText_text flag

theorem SignSwitch.ofText_text (switch : SignSwitch) : ofText switch.text = some switch := by
  cases switch <;> decide

theorem SignSwitch.ofText_eq_some : ofText arg = some switch ↔ arg = switch.text := by
  constructor
  · intro h
    have hfound := List.find?_some (p := fun which : SignSwitch => decide (which.text = arg)) h
    exact (of_decide_eq_true hfound).symm
  · rintro rfl
    exact ofText_text switch

theorem SignFlag.text_head (flag : SignFlag) : flag.text.head? = some 45 := by
  cases flag <;> decide

theorem SignSwitch.text_head (switch : SignSwitch) : switch.text.head? = some 45 := by
  cases switch <;> decide

theorem SignFlag.text_injective : Function.Injective SignFlag.text :=
  fun flag flag' h => Option.some.inj (flag.ofText_text.symm.trans (h ▸ flag'.ofText_text))

theorem SignSwitch.text_injective : Function.Injective SignSwitch.text :=
  fun which which' h => Option.some.inj (which.ofText_text.symm.trans (h ▸ which'.ofText_text))

theorem SignSwitch.text_ne_flag (which : SignSwitch) (flag : SignFlag) : which.text ≠ flag.text := by
  cases flag <;> cases which <;> decide

/-- An option with a value is none of the texts that end the program. -/
theorem SignFlag.text_ne (flag : SignFlag) : flag.text ≠ ascii "--help" ∧ flag.text ≠ ascii "-h" ∧
    flag.text ≠ ascii "--version" := by
  cases flag <;> decide

theorem SignSwitch.text_ne (switch : SignSwitch) : switch.text ≠ ascii "--help" ∧
    switch.text ≠ ascii "-h" ∧ switch.text ≠ ascii "--version" := by
  cases switch <;> decide

end Texts

/-! ## The loop and the items -/

section Loop

variable {o o' : SignArguments} {arg text : Bytes} {flag : SignFlag} {item : SignItem}
  {items : List SignItem}

theorem lastOf_cons {α : Type} {f : SignItem → Option α} {default : α} :
    lastOf f (item :: items) default = lastOf f items ((f item).getD default) := by
  unfold lastOf
  cases h : f item with
  | none => rw [List.filterMap_cons_none h, Option.getD_none]
  | some a => rw [List.filterMap_cons_some h, List.getLastD_cons, Option.getD_some]

theorem files_cons : (item :: items).filterMap SignItem.fileOf =
    item.fileOf.toList ++ items.filterMap SignItem.fileOf := by
  cases h : item.fileOf with
  | none => exact List.filterMap_cons_none h
  | some name => exact List.filterMap_cons_some h

/-- An option with its value sets what it sets before the items that follow. -/
theorem withItems_value (h : o.withValue text flag = .ok o') :
    o.withItems (.value flag text :: items) = o'.withItems items := by
  cases flag with
  | maxParallel =>
      simp only [SignArguments.withValue] at h
      cases hatoi : atoi text with
      | none => simp [hatoi] at h
      | some n =>
          simp only [hatoi, Except.ok.injEq] at h
          subst h
          simp [SignArguments.withItems, lastValue, lastOf_cons, files_cons, SignItem.workersOf,
            SignItem.valueOf, SignItem.fileOf, hatoi]
  | _ =>
      cases h
      simp [SignArguments.withItems, lastValue, lastOf_cons, files_cons, SignItem.workersOf,
        SignItem.valueOf, SignItem.fileOf]

theorem withItems_switch (which : SignSwitch) :
    o.withItems (.switch which :: items) = (o.withSwitch which).withItems items := by
  cases which <;>
    simp [SignArguments.withItems, SignArguments.withSwitch, lastValue, lastOf_cons, files_cons,
      SignItem.workersOf, SignItem.valueOf, SignItem.fileOf]

theorem withItems_file (name : Bytes) :
    o.withItems (.file name :: items) = (o.withFile name).withItems items := by
  simp [SignArguments.withItems, SignArguments.withFile, lastValue, lastOf_cons,
    SignItem.workersOf, SignItem.valueOf, SignItem.fileOf]

theorem withItems_nil : o.withItems [] = o := by
  simp [SignArguments.withItems, lastValue, lastOf]

theorem withArg_eq_ok (h : o.withArg arg = .ok o') : ∃ item : SignItem, item.Given ∧
    item.args = [arg] ∧ ∀ items, o.withItems (item :: items) = o'.withItems items := by
  unfold SignArguments.withArg at h
  split at h
  next which hwhich =>
    cases h
    obtain rfl := SignSwitch.ofText_eq_some.mp hwhich
    exact ⟨.switch which, trivial, rfl, fun _ => withItems_switch which⟩
  next =>
    split at h
    · cases h
    · split at h
      · cases h
      · split at h
        next hfile =>
          cases h
          exact ⟨.file arg, hfile, rfl, fun _ => withItems_file arg⟩
        next => cases h

theorem withArg_eq_error {stop : SignStop} {rest : List Bytes} (h : o.withArg arg = .error stop)
    (hflag : (SignFlag.ofText arg).isSome → rest = []) : StopsLoop (arg :: rest) stop := by
  unfold SignArguments.withArg at h
  split at h
  next => cases h
  next hswitch =>
    split at h
    next hhelp =>
      cases h
      exact .help rest hhelp
    next hhelp =>
      split at h
      next hversion =>
        cases h
        subst hversion
        exact .version rest
      next hversion =>
        split at h
        next => cases h
        next hdash =>
          cases h
          exact .unknown (not_not.mp hdash) hflag hswitch (not_or.mp hhelp) hversion

theorem withValue_given (h : o.withValue text flag = .ok o') : (SignItem.value flag text).Given := by
  cases flag with
  | maxParallel =>
      simp only [SignArguments.withValue] at h
      cases hatoi : atoi text with
      | none => simp [hatoi] at h
      | some n => exact Option.isSome_iff_exists.mpr ⟨n, hatoi⟩
  | _ => trivial

theorem withValue_eq_error {stop : SignStop} (h : o.withValue text flag = .error stop)
    (rest : List Bytes) : StopsLoop (flag.text :: text :: rest) stop := by
  cases flag with
  | maxParallel =>
      simp only [SignArguments.withValue] at h
      cases hatoi : atoi text with
      | none =>
          simp only [hatoi, Except.error.injEq] at h
          subst h
          exact .overflow rest hatoi
      | some n => simp [hatoi] at h
  | _ => cases h

end Loop

/-! ## The front that is read -/

/-- The arguments are over, or the first of them stops the loop. -/
def Ended (rest : List Bytes) : Prop := rest = [] ∨ ∃ stop, StopsLoop rest stop

/-- How the loop ends on arguments that are items up to `rest`. -/
def Reads (o : SignArguments) (items : List SignItem) (rest : List Bytes) :
    Except SignStop SignArguments → Prop
  | .ok parsed => rest = [] ∧ parsed = o.withItems items
  | .error stop => StopsLoop rest stop

section Reading

variable {o : SignArguments} {item item' : SignItem} {items items' : List SignItem}
  {more more' rest rest' : List Bytes}

theorem Reads.ended {outcome : Except SignStop SignArguments} (h : Reads o items rest outcome) :
    Ended rest := by
  cases outcome with
  | ok parsed => exact .inl h.1
  | error stop => exact .inr ⟨stop, h⟩

theorem exists_reads (o : SignArguments) (args : List Bytes) : ∃ items rest,
    (∀ item ∈ items, item.Given) ∧ args = items.flatMap SignItem.args ++ rest ∧
      Reads o items rest (parseSignArgs o args) := by
  fun_induction parseSignArgs o args with
  | case1 o => exact ⟨[], [], by simp, rfl, rfl, withItems_nil.symm⟩
  | case2 o arg =>
      cases h : o.withArg arg with
      | error stop => exact ⟨[], [arg], by simp, rfl, withArg_eq_error h fun _ => rfl⟩
      | ok o' =>
          obtain ⟨item, hgiven, hargs, hitem⟩ := withArg_eq_ok h
          refine ⟨[item], [], by simpa using hgiven, by simp [hargs], rfl, ?_⟩
          rw [hitem, withItems_nil]
  | case3 o arg value rest flag hflag stop hstop =>
      obtain rfl := SignFlag.ofText_eq_some.mp hflag
      exact ⟨[], _, by simp, rfl, withValue_eq_error hstop rest⟩
  | case4 o arg value rest flag hflag o' ho' ih =>
      obtain rfl := SignFlag.ofText_eq_some.mp hflag
      obtain ⟨items, left, hgiven, hargs, hreads⟩ := ih
      refine ⟨.value flag value :: items, left, ?_, ?_, ?_⟩
      · exact List.forall_mem_cons.mpr ⟨withValue_given ho', hgiven⟩
      · rw [List.flatMap_cons, List.append_assoc, ← hargs]
        rfl
      · unfold Reads at hreads ⊢
        rwa [withItems_value ho']
  | case5 o arg value rest hflag stop hstop =>
      refine ⟨[], _, by simp, rfl, withArg_eq_error hstop fun h => ?_⟩
      rw [hflag] at h
      cases h
  | case6 o arg value rest hflag o' ho' ih =>
      obtain ⟨item, hitem, hone, hwith⟩ := withArg_eq_ok ho'
      obtain ⟨items, left, hgiven, hargs, hreads⟩ := ih
      refine ⟨item :: items, left, List.forall_mem_cons.mpr ⟨hitem, hgiven⟩, ?_, ?_⟩
      · rw [List.flatMap_cons, List.append_assoc, ← hargs, hone]
        rfl
      · unfold Reads at hreads ⊢
        rwa [hwith]

/-- The first argument of an item asks for nothing else. -/
theorem SignItem.Given.first_ne {arg : Bytes} (hgiven : item.Given)
    (h : item.args ++ more = arg :: rest) :
    arg ≠ ascii "--help" ∧ arg ≠ ascii "-h" ∧ arg ≠ ascii "--version" := by
  cases item with
  | value flag text =>
      obtain ⟨rfl, -⟩ := List.cons.inj h
      exact flag.text_ne
  | switch which =>
      obtain ⟨rfl, -⟩ := List.cons.inj h
      exact which.text_ne
  | file name =>
      obtain ⟨rfl, -⟩ := List.cons.inj h
      have hdash : ∀ text : Bytes, text.head? = some 45 → name ≠ text := by
        rintro text hhead rfl
        exact hgiven hhead
      exact ⟨hdash _ (by decide), hdash _ (by decide), hdash _ (by decide)⟩

/-- Nothing that can be given stops the loop. -/
theorem Ended.not_item (hgiven : item.Given) : ¬ Ended (item.args ++ more) := by
  rintro (hnil | ⟨stop, hstop⟩)
  · cases item <;> cases hnil
  · generalize hargs : item.args ++ more = args at hstop
    cases hstop with
    | help rest hhelp =>
        obtain ⟨hne, hne', -⟩ := hgiven.first_ne hargs
        exact hhelp.elim hne hne'
    | version rest => exact (hgiven.first_ne hargs).2.2 rfl
    | unknown hdash hflag hswitch =>
        cases item with
        | value flag text =>
            obtain ⟨rfl, hrest⟩ := List.cons.inj hargs
            rw [hflag (by rw [flag.ofText_text]; rfl)] at hrest
            cases hrest
        | switch which =>
            obtain ⟨rfl, -⟩ := List.cons.inj hargs
            rw [which.ofText_text] at hswitch
            cases hswitch
        | file name =>
            obtain ⟨rfl, -⟩ := List.cons.inj hargs
            exact hgiven hdash
    | overflow rest hatoi =>
        cases item with
        | value flag text =>
            obtain ⟨htext, hrest⟩ := List.cons.inj hargs
            obtain rfl : flag = .maxParallel := SignFlag.text_injective htext
            obtain ⟨rfl, -⟩ := List.cons.inj hrest
            rw [SignItem.Given, hatoi] at hgiven
            cases hgiven
        | switch which => exact SignSwitch.text_ne_flag _ _ (List.cons.inj hargs).1
        | file name => exact hgiven ((List.cons.inj hargs).1 ▸ SignFlag.text_head _)

/-- An item is told by the first of its arguments. -/
theorem item_front (hgiven : item.Given) (hgiven' : item'.Given)
    (h : item.args ++ more = item'.args ++ more') : item = item' ∧ more = more' := by
  cases item with
  | value flag text =>
      cases item' with
      | value flag' text' =>
          obtain ⟨htext, hrest⟩ := List.cons.inj h
          obtain ⟨rfl, hmore⟩ := List.cons.inj hrest
          exact ⟨congrArg (SignItem.value · text) (SignFlag.text_injective htext), hmore⟩
      | switch which => exact absurd (List.cons.inj h).1.symm (SignSwitch.text_ne_flag _ _)
      | file name => exact absurd ((List.cons.inj h).1 ▸ flag.text_head) hgiven'
  | switch which =>
      cases item' with
      | value flag text => exact absurd (List.cons.inj h).1 (SignSwitch.text_ne_flag _ _)
      | switch which' =>
          obtain ⟨htext, hmore⟩ := List.cons.inj h
          exact ⟨congrArg SignItem.switch (SignSwitch.text_injective htext), hmore⟩
      | file name => exact absurd ((List.cons.inj h).1 ▸ which.text_head) hgiven'
  | file name =>
      cases item' with
      | value flag text => exact absurd ((List.cons.inj h).1 ▸ flag.text_head) hgiven
      | switch which => exact absurd ((List.cons.inj h).1 ▸ which.text_head) hgiven
      | file name' =>
          obtain ⟨rfl, hmore⟩ := List.cons.inj h
          exact ⟨rfl, hmore⟩

theorem items_unique (hgiven : ∀ item ∈ items, item.Given) (hgiven' : ∀ item ∈ items', item.Given)
    (hended : Ended rest) (hended' : Ended rest')
    (h : items.flatMap SignItem.args ++ rest = items'.flatMap SignItem.args ++ rest') :
    items = items' := by
  induction items generalizing items' with
  | nil =>
      cases items' with
      | nil => rfl
      | cons item' items' =>
          rw [List.flatMap_cons, List.append_assoc, List.flatMap_nil, List.nil_append] at h
          exact absurd (h ▸ hended) (Ended.not_item (hgiven' item' List.mem_cons_self))
  | cons item items ih =>
      cases items' with
      | nil =>
          rw [List.flatMap_cons, List.append_assoc, List.flatMap_nil, List.nil_append] at h
          exact absurd (h ▸ hended') (Ended.not_item (hgiven item List.mem_cons_self))
      | cons item' items' =>
          rw [List.flatMap_cons, List.flatMap_cons, List.append_assoc, List.append_assoc] at h
          obtain ⟨rfl, hmore⟩ := item_front (hgiven item List.mem_cons_self)
            (hgiven' item' List.mem_cons_self) h
          rw [ih (fun item h => hgiven item (List.mem_cons_of_mem _ h))
            (fun item h => hgiven' item (List.mem_cons_of_mem _ h)) hmore]

end Reading

/-- The arguments are in exactly one way items with a rest that is empty or stops the loop. The
loop sets what the items set, each option by its last value and the files in their order, or
ends with what the first argument of the rest asks for. -/
theorem parseSignArgs_items (o : SignArguments) (args : List Bytes) :
    ∃ items rest, (∀ item ∈ items, SignItem.Given item) ∧ Ended rest ∧
      args = items.flatMap SignItem.args ++ rest ∧ Reads o items rest (parseSignArgs o args) ∧
        ∀ items' rest', (∀ item ∈ items', SignItem.Given item) → Ended rest' →
          args = items'.flatMap SignItem.args ++ rest' → items' = items ∧ rest' = rest := by
  obtain ⟨items, rest, hgiven, hargs, hreads⟩ := exists_reads o args
  refine ⟨items, rest, hgiven, hreads.ended, hargs, hreads, ?_⟩
  intro items' rest' hgiven' hended' hargs'
  have hsame := hargs'.symm.trans hargs
  obtain rfl := items_unique hgiven' hgiven hended' hreads.ended hsame
  exact ⟨rfl, List.append_cancel_left hsame⟩

end AasSign
