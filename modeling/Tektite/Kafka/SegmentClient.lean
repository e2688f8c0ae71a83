import Tektite.Strings

/-!
# The segmentio Kafka message provider

`src/kafka/segment_client.go` adapts the segmentio kafka-go consumer to tektite's `MessageProvider`. A provider holds
at most one `*kafka.Reader`. `Start` builds a `kafka.ReaderConfig` from the factory's properties and makes a reader;
`GetMessage` and `CommitOffsets` pass through to the reader and do nothing without one; `Close` closes the reader and
drops it. Every method but `Stop`, which touches nothing, holds the provider's mutex for its whole body, so the
methods of one provider take effect one after another: the model is a state machine whose steps are method calls
(`Provider.step`), and `Provider.run` makes any sequence of them. kafka-go is the environment: a step carries
kafka-go's answers to the calls the method makes and returns those calls (`Call`), so that the results speak about
what the provider asks of kafka-go. Two of those calls panic in kafka-go itself: `kafka.NewReader` when
`ReaderConfig.Validate` rejects the configuration, and `Close` on a nil `*kafka.Reader`. A method that panics
releases the mutex in its deferred `Unlock` and leaves the provider as it is; a run goes on after it, as it does for a
caller that recovers.

Go's `for k, v := range m` visits a map in an order the runtime picks; a `RangeOrder m` is any such order, and every
result holds for all of them.

* `start_cases`: `Start` fails exactly when some property is not `bootstrap.servers`; its `InvalidConfiguration`
  error then quotes that property's value, not its key, the provider is unchanged and kafka-go is not called.
  Otherwise it calls `kafka.NewReader` with the factory's group and topic, `FirstOffset` and the comma-separated
  brokers (`readerConfig`), whatever the order; that panics when there is no property or no topic, and otherwise the
  provider keeps the new reader.
* `newMessageProvider_run`: from `NewMessageProvider`, every run keeps `Inv`, and every call it makes goes to a reader
  configured by `readerConfig`, or makes one; every message it commits names that reader's topic.
* `start_replaced_reader`: a reader that `Start` replaces is not closed by it, and no later call goes to it.
* `close_reader_unused`: a reader that `Close` drops is never called again: no fetch, commit or second `Close` on it.
  Readers are numbered in the order they are made, and every later call goes to a reader made after it
  (`run_fresh`).
* `commitOffsets_fetched`: committing one past the offset of a message `GetMessage` returned commits that message's
  partition and offset.
* `newMessageProvider_reader`: after any calls, the provider holds a reader exactly as the two-state lifecycle
  `Op.holdsReader` says (`run_holdsReader`). Without one, `GetMessage` and `CommitOffsets` call nothing, but `Close`
  panics on the nil reader: it is the one method without the nil check.
-/

set_option autoImplicit false

namespace Tektite.Kafka

open Strings

/-! ## Go values -/

/-- Go's `int32(x)` for an integer `x`: its two's-complement truncation to 32 bits. -/
def toInt32 (x : Int) : Int := (x + 2 ^ 31) % 2 ^ 32 - 2 ^ 31

/-- The `int64` result of integer arithmetic, which wraps around modulo `2 ^ 64`. -/
def toInt64 (x : Int) : Int := (x + 2 ^ 63) % 2 ^ 64 - 2 ^ 63

theorem toInt32_of_range {x : Int} (h₁ : -2 ^ 31 ≤ x) (h₂ : x < 2 ^ 31) : toInt32 x = x := by
  unfold toInt32; omega

/-- Adding one and then subtracting one in `int64` gives back every `int64`, across the wrap-around too. -/
theorem toInt64_add_one_sub_one {x : Int} (h₁ : -2 ^ 63 ≤ x) (h₂ : x < 2 ^ 63) :
    toInt64 (toInt64 (x + 1) - 1) = x := by
  unfold toInt64; omega

@[simp] theorem except_ok_bind {ε α β : Type} (a : α) (g : α → Except ε β) : (Except.ok a >>= g) = g a := rfl

@[simp] theorem except_error_bind {ε α β : Type} (e : ε) (g : α → Except ε β) :
    (Except.error e >>= g) = .error e := rfl

@[simp] theorem except_pure {ε α : Type} (a : α) : (pure a : Except ε α) = .ok a := rfl

/-- A Go map: its entries, with each key once. -/
structure GoMap (κ ν : Type) where
  entries : List (κ × ν)
  nodup_keys : (entries.map Prod.fst).Nodup

/-- An order in which `for k, v := range m` may visit the map `m`: every entry, once. -/
structure RangeOrder {κ ν : Type} (m : GoMap κ ν) where
  order : List (κ × ν)
  perm : order.Perm m.entries

/-! ## kafka-go -/

/-- `kafka.FirstOffset`: a new consumer group starts at the oldest message. -/
def firstOffset : Int := -2

/-- The fields of a `kafka.ReaderConfig` that `Start` sets; the others keep their zero values. -/
structure ReaderConfig where
  brokers : List (List UInt8)
  groupID : List UInt8
  topic : List UInt8
  startOffset : Int
deriving DecidableEq, Repr

/-- `ReaderConfig.Validate` of kafka-go, on a configuration whose other fields have their zero values, as `Start`
leaves them: the checks of the partition, the batch sizes and the back-off bounds pass on zeros, and `GroupTopics`
is empty. -/
def ReaderConfig.validate (cfg : ReaderConfig) : Option (List UInt8) :=
  if cfg.brokers = [] then some (utf8 "cannot create a new kafka reader with an empty list of broker addresses")
  else if cfg.groupID ≠ [] then
    if cfg.topic = [] then some (utf8 "either Topic or GroupTopics must be specified with GroupID") else none
  else if cfg.topic = [] then some (utf8 "cannot create a new kafka reader with an empty topic")
  else none

/-- A `*kafka.Reader`: the configuration `kafka.NewReader` was given, and the pointer's identity, as the number of
readers the provider had made before it. -/
structure Reader where
  serial : Nat
  config : ReaderConfig
deriving DecidableEq, Repr

/-- `kafka.NewReader`: a panic with the error `Validate` returns, or a new reader, here the one numbered `serial`. -/
def newReader (serial : Nat) (cfg : ReaderConfig) : Except (List UInt8) Reader :=
  match cfg.validate with
  | some err => .error err
  | none => .ok ⟨serial, cfg⟩

/-- The message of the runtime's panic on a nil pointer dereference, which `(*kafka.Reader).Close` raises on a nil
receiver when it reaches the reader's fields. -/
def nilDereference : List UInt8 := utf8 "runtime error: invalid memory address or nil pointer dereference"

/-- The fields of a `kafka.Message` that the provider reads or sets; a composite literal leaves the others zero. -/
structure KafkaMessage where
  topic : List UInt8
  partition : Int
  offset : Int
  key : List UInt8 := []
  value : List UInt8 := []
  /-- `Headers`, each `kafka.Header` as its key and value. -/
  headers : List (List UInt8 × List UInt8) := []
  /-- `Time`, copied and never inspected. -/
  time : Int := 0
deriving DecidableEq, Repr

/-- What `reader.FetchMessage(ctx)` returned. -/
inductive FetchResult
  | message (msg : KafkaMessage)
  /-- An error for which `errors.Is(err, context.DeadlineExceeded)` holds: the poll timed out. -/
  | deadlineExceeded
  | failed (err : List UInt8)
deriving DecidableEq, Repr

/-- A call the provider makes into kafka-go. -/
inductive Call
  /-- `kafka.NewReader(*cfg)`. -/
  | newReader (cfg : ReaderConfig)
  | fetchMessage (r : Reader)
  | commitMessages (r : Reader) (msgs : List KafkaMessage)
  /-- `smp.reader.Close()`, also when `smp.reader` is nil (`none`). -/
  | close (r : Option Reader)
deriving DecidableEq, Repr

/-- The reader a call goes to. -/
def Call.reader? : Call → Option Reader
  | .newReader _ => none
  | .fetchMessage r | .commitMessages r _ => some r
  | .close r => r

/-! ## The provider -/

/-- `MessageHeader`. -/
structure MessageHeader where
  key : List UInt8
  value : List UInt8
deriving DecidableEq, Repr

/-- `Message`, with the fields of its `PartInfo` inline. -/
structure Message where
  partitionID : Int
  offset : Int
  timeStamp : Int
  key : List UInt8
  value : List UInt8
  headers : List MessageHeader
deriving DecidableEq, Repr

/-- The errors the provider returns. -/
inductive ProviderError
  /-- `errors.NewInvalidConfigurationError(msg)`. -/
  | invalidConfiguration (msg : List UInt8)
  /-- An error of kafka-go, returned as it is or wrapped by `errors.WithStack`. -/
  | kafka (err : List UInt8)
deriving DecidableEq, Repr

/-- What a method returned: a message and an error, or an error; or the error it panicked with. -/
inductive Reply
  | message (res : Except ProviderError (Option Message))
  | done (err : Option ProviderError)
  | panic (msg : List UInt8)
deriving Repr

/-- `SegmentMessageProviderFactory`. -/
structure Factory where
  topicName : List UInt8
  props : GoMap (List UInt8) (List UInt8)
  groupID : List UInt8

/-- `NewMessageProviderFactory`. -/
def newMessageProviderFactory (topicName : List UInt8) (props : GoMap (List UInt8) (List UInt8))
    (groupID : List UInt8) : Factory :=
  { topicName, props, groupID }

/-- `SegmentKafkaMessageProvider` without its mutex; `made` counts the readers the provider has made. -/
structure Provider where
  reader : Option Reader
  topicName : List UInt8
  krpf : Factory
  made : Nat

/-- `NewMessageProvider`, which never fails: a provider with no reader yet. -/
def Factory.newMessageProvider (smpf : Factory) : Provider :=
  { reader := none, topicName := smpf.topicName, krpf := smpf, made := 0 }

/-- `setProperty`: only `bootstrap.servers` is supported. The error quotes the value `v`, not the key. -/
def setProperty (cfg : ReaderConfig) (k v : List UInt8) : Except ProviderError ReaderConfig :=
  if k = utf8 "bootstrap.servers" then .ok { cfg with brokers := split v 44 }
  else .error (.invalidConfiguration (utf8 "unsupported segmentio/kafka-go client option: " ++ v))

/-- The `Message` that `GetMessage` builds from a fetched `kafka.Message`. -/
def toMessage (msg : KafkaMessage) : Message where
  partitionID := toInt32 msg.partition
  offset := msg.offset
  timeStamp := msg.time
  key := msg.key
  value := msg.value
  headers := msg.headers.map fun hdr => ⟨hdr.1, hdr.2⟩

namespace Provider

/-- The end of `Start`, once its loop has built `cfg`: `kafka.NewReader(*cfg)`, and the provider keeps the reader. A
panic in `NewReader` leaves the provider as it is. -/
def keepReader (smp : Provider) (cfg : ReaderConfig) : Provider × Reply × List Call :=
  match newReader smp.made cfg with
  | .error err => (smp, .panic err, [.newReader cfg])
  | .ok reader => ({ smp with reader := some reader, made := smp.made + 1 }, .done none, [.newReader cfg])

/-- `Start`, with `props` the order in which its loop visits `smp.krpf.props`. -/
def start (smp : Provider) (props : List (List UInt8 × List UInt8)) : Provider × Reply × List Call :=
  let cfg : ReaderConfig :=
    { brokers := [], groupID := smp.krpf.groupID, topic := smp.krpf.topicName, startOffset := firstOffset }
  match props.foldlM (fun cfg kv => setProperty cfg kv.1 kv.2) cfg with
  | .error err => (smp, .done (some err), [])
  | .ok cfg => smp.keepReader cfg

/-- `GetMessage`, given what `FetchMessage` returned; it leaves the provider as it is. -/
def getMessage (smp : Provider) (fetched : FetchResult) : Except ProviderError (Option Message) × List Call :=
  match smp.reader with
  | none => (.ok none, [])
  | some r =>
    let res : Except ProviderError (Option Message) :=
      match fetched with
      | .deadlineExceeded => .ok none
      | .failed err => .error (.kafka err)
      | .message msg => .ok (some (toMessage msg))
    (res, [.fetchMessage r])

/-- `CommitOffsets`, with `offsets` the order in which its loop visits the map and `committed` the error
`CommitMessages` returned; it leaves the provider as it is. -/
def commitOffsets (smp : Provider) (offsets : List (Int × Int)) (committed : Option (List UInt8)) :
    Option ProviderError × List Call :=
  match smp.reader with
  | none => (none, [])
  | some r =>
    let kmsgs : List KafkaMessage :=
      offsets.map fun kv => { topic := smp.topicName, partition := kv.1, offset := toInt64 (kv.2 - 1) }
    (committed.map .kafka, [.commitMessages r kmsgs])

/-- `Stop`. -/
def stop (_ : Provider) : Option ProviderError := none

/-- `Close`, given the error `reader.Close()` returned. Unlike `GetMessage` and `CommitOffsets` it has no nil
check: without a reader it calls `Close` on a nil `*kafka.Reader`, which panics. -/
def close (smp : Provider) (closed : Option (List UInt8)) : Provider × Reply × List Call :=
  match smp.reader with
  | none => (smp, .panic nilDereference, [.close none])
  | some r => ({ smp with reader := none }, .done (closed.map .kafka), [.close (some r)])

end Provider

/-- One method call on a provider made by `f`, with kafka-go's answers to the calls the method makes. -/
inductive Op (f : Factory)
  | start (order : RangeOrder f.props)
  | getMessage (fetched : FetchResult)
  | commitOffsets (offsets : GoMap Int Int) (order : RangeOrder offsets) (committed : Option (List UInt8))
  | stop
  | close (closed : Option (List UInt8))


namespace Provider

variable {f : Factory}

/-- One method call: the provider after it, its reply, and its calls into kafka-go. -/
def step (smp : Provider) : Op f → Provider × Reply × List Call
  | .start o => smp.start o.order
  | .getMessage fetched => let s := smp.getMessage fetched; (smp, .message s.1, s.2)
  | .commitOffsets _ o committed => let s := smp.commitOffsets o.order committed; (smp, .done s.1, s.2)
  | .stop => (smp, .done smp.stop, [])
  | .close closed => smp.close closed

/-- Method calls one after another: the provider at the end, and each call's reply and calls into kafka-go. -/
def run (smp : Provider) : List (Op f) → Provider × List (Reply × List Call)
  | [] => (smp, [])
  | op :: ops =>
    let s := smp.step op
    let rest := run s.1 ops
    (rest.1, (s.2.1, s.2.2) :: rest.2)

end Provider

/-! ## `Start` -/

/-- The configuration `Start` gives `kafka.NewReader` when it succeeds: then every property is `bootstrap.servers`,
which a map holds at most once. -/
def readerConfig (f : Factory) : ReaderConfig where
  brokers := match f.props.entries with
    | [kv] => split kv.2 44
    | _ => []
  groupID := f.groupID
  topic := f.topicName
  startOffset := firstOffset

/-- `Start` succeeds for the factory `f`: every property is `bootstrap.servers`, and `Validate` accepts the
configuration. -/
def StartOk (f : Factory) : Prop :=
  (∀ kv ∈ f.props.entries, kv.1 = utf8 "bootstrap.servers") ∧ (readerConfig f).validate = none

instance (f : Factory) : Decidable (StartOk f) := inferInstanceAs (Decidable (_ ∧ _))

namespace Provider

variable {smp : Provider} {props : List (List UInt8 × List UInt8)}

/-- The loop of `Start` stops at the first property that is not `bootstrap.servers`. -/
theorem foldlM_setProperty_of_find : ∀ {props : List (List UInt8 × List UInt8)} {kv : List UInt8 × List UInt8}
    (cfg : ReaderConfig), props.find? (fun kv => kv.1 != utf8 "bootstrap.servers") = some kv →
    props.foldlM (fun cfg kv => setProperty cfg kv.1 kv.2) cfg =
      .error (.invalidConfiguration (utf8 "unsupported segmentio/kafka-go client option: " ++ kv.2))
  | [], _, _, h => by simp at h
  | (k, v) :: props, kv, cfg, h => by
    by_cases hk : k = utf8 "bootstrap.servers"
    · simp only [List.find?_cons, hk, bne_self_eq_false] at h
      simpa [setProperty, hk] using foldlM_setProperty_of_find { cfg with brokers := split v 44 } h
    · have hb : (k != utf8 "bootstrap.servers") = true := bne_iff_ne.2 hk
      simp only [List.find?_cons, hb, Option.some.injEq] at h
      simp [← h, setProperty, hk]

theorem start_of_find {kv : List UInt8 × List UInt8}
    (h : props.find? (fun kv => kv.1 != utf8 "bootstrap.servers") = some kv) :
    smp.start props =
      (smp, .done (some (.invalidConfiguration (utf8 "unsupported segmentio/kafka-go client option: " ++ kv.2))),
        []) := by
  simp [start, foldlM_setProperty_of_find _ h]

/-- A map whose keys are all `a` holds at most the one entry. -/
theorem eq_nil_or_singleton {ν : Type} {a : List UInt8} : ∀ {l : List (List UInt8 × ν)}, (l.map Prod.fst).Nodup →
    (∀ kv ∈ l, kv.1 = a) → l = [] ∨ ∃ v, l = [(a, v)]
  | [], _, _ => .inl rfl
  | [(k, v)], _, h => .inr ⟨v, by rw [show k = a from h _ (List.mem_singleton_self _)]⟩
  | kv₁ :: kv₂ :: _, hn, h =>
    have h₁₂ : kv₁.1 = kv₂.1 := (h kv₁ (.head _)).trans (h kv₂ (.tail _ (.head _))).symm
    ((List.nodup_cons.1 hn).1 (List.mem_map.2 ⟨kv₂, .head _, h₁₂.symm⟩)).elim

/-- With supported properties only, the loop of `Start` builds `readerConfig`, whatever the order. -/
theorem start_of_supported (hp : props.Perm smp.krpf.props.entries)
    (h : ∀ kv ∈ smp.krpf.props.entries, kv.1 = utf8 "bootstrap.servers") :
    smp.start props = smp.keepReader (readerConfig smp.krpf) := by
  rcases eq_nil_or_singleton smp.krpf.props.nodup_keys h with he | ⟨v, he⟩
  · rw [he, List.perm_nil] at hp
    simp [start, readerConfig, he, hp]
  · rw [he, List.perm_singleton] at hp
    simp [start, readerConfig, he, hp, setProperty]

theorem supported_of_find_none (hp : props.Perm smp.krpf.props.entries)
    (h : props.find? (fun kv => kv.1 != utf8 "bootstrap.servers") = none) :
    ∀ kv ∈ smp.krpf.props.entries, kv.1 = utf8 "bootstrap.servers" := fun kv hkv => by
  simpa using List.find?_eq_none.1 h kv (hp.mem_iff.2 hkv)

theorem keepReader_of_validate_none {cfg : ReaderConfig} (h : cfg.validate = none) :
    smp.keepReader cfg =
      ({ smp with reader := some ⟨smp.made, cfg⟩, made := smp.made + 1 }, .done none, [.newReader cfg]) := by
  simp [keepReader, newReader, h]

theorem keepReader_of_validate_some {cfg : ReaderConfig} {err : List UInt8} (h : cfg.validate = some err) :
    smp.keepReader cfg = (smp, .panic err, [.newReader cfg]) := by
  simp [keepReader, newReader, h]

/-- With supported properties, `Validate` accepts `readerConfig` exactly when there is a property, which
`strings.Split` turns into at least one broker, and a topic. -/
theorem validate_readerConfig {f : Factory} (h : ∀ kv ∈ f.props.entries, kv.1 = utf8 "bootstrap.servers") :
    (readerConfig f).validate = none ↔ f.props.entries ≠ [] ∧ f.topicName ≠ [] := by
  rcases eq_nil_or_singleton f.props.nodup_keys h with he | ⟨v, he⟩
  · simp [ReaderConfig.validate, readerConfig, he]
  · by_cases hg : f.groupID = [] <;> simp [ReaderConfig.validate, readerConfig, he, hg, split_ne_nil]

/-- `Start` does not succeed for the factory, and then fails or panics in `NewReader`, changing nothing; or it
succeeds and makes a reader configured by `readerConfig`. -/
theorem start_eq_or (hp : props.Perm smp.krpf.props.entries) :
    (¬StartOk smp.krpf ∧ ((∃ err, smp.start props = (smp, .done (some err), [])) ∨
      ∃ err, smp.start props = (smp, .panic err, [.newReader (readerConfig smp.krpf)]))) ∨
    (StartOk smp.krpf ∧
      smp.start props = ({ smp with reader := some ⟨smp.made, readerConfig smp.krpf⟩, made := smp.made + 1 },
        .done none, [.newReader (readerConfig smp.krpf)])) := by
  cases h : props.find? (fun kv => kv.1 != utf8 "bootstrap.servers") with
  | some kv =>
    have hk : kv.1 ≠ utf8 "bootstrap.servers" := by simpa using List.find?_some h
    exact .inl ⟨fun hok => hk (hok.1 kv (hp.mem_iff.1 (List.mem_of_find?_eq_some h))), .inl ⟨_, start_of_find h⟩⟩
  | none =>
    have hs := supported_of_find_none hp h
    rw [start_of_supported hp hs]
    cases hv : (readerConfig smp.krpf).validate with
    | some err =>
      exact .inl ⟨fun hok => Option.some_ne_none err (hv.symm.trans hok.2), .inr ⟨err, keepReader_of_validate_some hv⟩⟩
    | none => exact .inr ⟨⟨hs, hv⟩, keepReader_of_validate_none hv⟩

/-- **Start.** For every order of the properties: when some property is not `bootstrap.servers`, `Start` returns an
error quoting that property's value, changes nothing and calls nothing. Otherwise it calls `kafka.NewReader` with
`readerConfig`, which panics, changing nothing, when there is no property or no topic, and otherwise gives the
provider a new reader. -/
theorem start_cases (smp : Provider) (o : RangeOrder smp.krpf.props) :
    (∃ kv ∈ smp.krpf.props.entries, kv.1 ≠ utf8 "bootstrap.servers" ∧ smp.start o.order =
      (smp, .done (some (.invalidConfiguration (utf8 "unsupported segmentio/kafka-go client option: " ++ kv.2))),
        [])) ∨
    ((∀ kv ∈ smp.krpf.props.entries, kv.1 = utf8 "bootstrap.servers") ∧
      (smp.krpf.props.entries = [] ∨ smp.krpf.topicName = []) ∧
      ∃ err, (readerConfig smp.krpf).validate = some err ∧
        smp.start o.order = (smp, .panic err, [.newReader (readerConfig smp.krpf)])) ∨
    ((∀ kv ∈ smp.krpf.props.entries, kv.1 = utf8 "bootstrap.servers") ∧ smp.krpf.props.entries ≠ [] ∧
      smp.krpf.topicName ≠ [] ∧
      smp.start o.order = ({ smp with reader := some ⟨smp.made, readerConfig smp.krpf⟩, made := smp.made + 1 },
        .done none, [.newReader (readerConfig smp.krpf)])) := by
  cases h : o.order.find? (fun kv => kv.1 != utf8 "bootstrap.servers") with
  | some kv =>
    exact .inl ⟨kv, o.perm.mem_iff.1 (List.mem_of_find?_eq_some h), by simpa using List.find?_some h,
      start_of_find h⟩
  | none =>
    have hs := supported_of_find_none o.perm h
    rw [start_of_supported o.perm hs]
    cases hv : (readerConfig smp.krpf).validate with
    | some err =>
      have hn := mt (validate_readerConfig hs).2 (by rw [hv]; exact Option.some_ne_none err)
      exact .inr (.inl ⟨hs, (not_and_or.1 hn).imp not_not.1 not_not.1, err, rfl, keepReader_of_validate_some hv⟩)
    | none =>
      obtain ⟨hne, htop⟩ := (validate_readerConfig hs).1 hv
      exact .inr (.inr ⟨hs, hne, htop, keepReader_of_validate_none hv⟩)

end Provider

/-! ## Every run -/

/-- What holds of a provider made by `f` between method calls. -/
structure Inv (f : Factory) (smp : Provider) : Prop where
  krpf : smp.krpf = f
  topicName : smp.topicName = f.topicName
  reader : ∀ r ∈ smp.reader, r.config = readerConfig f ∧ r.serial + 1 = smp.made

/-- What a call into kafka-go by a provider made by `f` looks like. -/
def CallOk (f : Factory) : Call → Prop
  | .newReader cfg => cfg = readerConfig f
  | .fetchMessage r => r.config = readerConfig f
  | .commitMessages r msgs => r.config = readerConfig f ∧ ∀ m ∈ msgs, m.topic = r.config.topic
  | .close r => ∀ r' ∈ r, r'.config = readerConfig f

theorem inv_newMessageProvider (f : Factory) : Inv f f.newMessageProvider :=
  ⟨rfl, rfl, fun _ h => nomatch h⟩

namespace Provider

variable {f : Factory} {smp : Provider}

/-- What one method call can do: leave the provider as it is, calling only `NewReader` with `readerConfig`, `Close`
on the nil reader, or the reader it holds; make a reader configured by `readerConfig`; or drop the reader it holds
after calling `Close` on it. -/
theorem step_cases (hf : smp.krpf = f) (op : Op f) :
    ((smp.step op).1 = smp ∧ ∀ c ∈ (smp.step op).2.2, c = .newReader (readerConfig f) ∨ c = .close none ∨
      ∃ r, smp.reader = some r ∧
        (c = .fetchMessage r ∨ ∃ msgs, c = .commitMessages r msgs ∧ ∀ m ∈ msgs, m.topic = smp.topicName)) ∨
    ((smp.step op).1 = { smp with reader := some ⟨smp.made, readerConfig f⟩, made := smp.made + 1 } ∧
      (smp.step op).2.2 = [.newReader (readerConfig f)]) ∨
    (∃ r, smp.reader = some r ∧ (smp.step op).1 = { smp with reader := none } ∧
      (smp.step op).2.2 = [.close (some r)]) := by
  cases op with
  | start o =>
    subst hf
    rcases start_eq_or o.perm with ⟨-, ⟨err, h⟩ | ⟨err, h⟩⟩ | ⟨-, h⟩ <;> rw [step, h]
    · exact .inl ⟨rfl, fun _ h => nomatch h⟩
    · exact .inl ⟨rfl, fun c hc => .inl (List.mem_singleton.1 hc)⟩
    · exact .inr (.inl ⟨rfl, rfl⟩)
  | getMessage fetched =>
    refine .inl ⟨rfl, ?_⟩
    cases hr : smp.reader with
    | none => simp only [step, getMessage, hr]; exact fun _ h => nomatch h
    | some r =>
      simp only [step, getMessage, hr, List.mem_singleton]
      rintro c rfl
      exact .inr (.inr ⟨r, rfl, .inl rfl⟩)
  | commitOffsets offsets o committed =>
    refine .inl ⟨rfl, ?_⟩
    cases hr : smp.reader with
    | none => simp only [step, commitOffsets, hr]; exact fun _ h => nomatch h
    | some r =>
      simp only [step, commitOffsets, hr, List.mem_singleton]
      rintro c rfl
      exact .inr (.inr ⟨r, rfl, .inr ⟨_, rfl, fun m hm => by obtain ⟨kv, -, rfl⟩ := List.mem_map.1 hm; rfl⟩⟩)
  | stop => exact .inl ⟨rfl, fun _ h => nomatch h⟩
  | close closed =>
    cases hr : smp.reader with
    | none => exact .inl ⟨by simp [step, close, hr], by simp [step, close, hr]⟩
    | some r => exact .inr (.inr ⟨r, rfl, by simp [step, close, hr], by simp [step, close, hr]⟩)

theorem step_inv (hi : Inv f smp) (op : Op f) : Inv f (smp.step op).1 := by
  rcases step_cases hi.krpf op with ⟨h, -⟩ | ⟨h, -⟩ | ⟨-, -, h, -⟩ <;> rw [h]
  · exact hi
  · exact ⟨hi.krpf, hi.topicName, by rintro r ⟨⟩; exact ⟨rfl, rfl⟩⟩
  · exact ⟨hi.krpf, hi.topicName, fun _ h => nomatch h⟩

theorem step_callOk (hi : Inv f smp) (op : Op f) : ∀ c ∈ (smp.step op).2.2, CallOk f c := by
  rcases step_cases hi.krpf op with ⟨-, h⟩ | ⟨-, h⟩ | ⟨r, hr, -, h⟩
  · intro c hc
    obtain rfl | rfl | ⟨r, hr, rfl | ⟨msgs, rfl, hm⟩⟩ := h c hc
    · rfl
    · exact fun _ h => nomatch h
    · exact (hi.reader r hr).1
    · refine ⟨(hi.reader r hr).1, fun m hm' => ?_⟩
      rw [hm m hm', hi.topicName, (hi.reader r hr).1]
      rfl
  · rw [h]
    rintro c hc
    rw [List.mem_singleton.1 hc]
    rfl
  · rw [h]
    rintro c hc
    rw [List.mem_singleton.1 hc]
    rintro _ ⟨⟩
    exact (hi.reader r hr).1

@[simp] theorem run_nil : smp.run ([] : List (Op f)) = (smp, []) := rfl

@[simp] theorem run_cons (op : Op f) (ops : List (Op f)) :
    smp.run (op :: ops) = (((smp.step op).1.run ops).1,
      ((smp.step op).2.1, (smp.step op).2.2) :: ((smp.step op).1.run ops).2) := rfl

theorem run_inv (hi : Inv f smp) (ops : List (Op f)) : Inv f (smp.run ops).1 := by
  induction ops generalizing smp with
  | nil => exact hi
  | cons op ops ih => exact ih (step_inv hi op)

theorem run_callOk (hi : Inv f smp) (ops : List (Op f)) : ∀ e ∈ (smp.run ops).2, ∀ c ∈ e.2, CallOk f c := by
  induction ops generalizing smp with
  | nil => exact fun _ h => nomatch h
  | cons op ops ih =>
    simp only [run_cons, List.mem_cons, forall_eq_or_imp]
    exact ⟨step_callOk hi op, ih (step_inv hi op)⟩

/-- A provider whose reader, if any, and count of readers made are at least `m` stays so, and calls only readers of
serial at least `m`: a reader is made with the count as its serial. -/
theorem step_fresh {m : Nat} (hi : Inv f smp) (hm : m ≤ smp.made) (hr : ∀ r ∈ smp.reader, m ≤ r.serial)
    (op : Op f) :
    (m ≤ (smp.step op).1.made ∧ ∀ r ∈ (smp.step op).1.reader, m ≤ r.serial) ∧
      ∀ c ∈ (smp.step op).2.2, ∀ r ∈ c.reader?, m ≤ r.serial := by
  rcases step_cases hi.krpf op with ⟨h, hc⟩ | ⟨h, hc⟩ | ⟨r, hr', h, hc⟩ <;> rw [h]
  · refine ⟨⟨hm, hr⟩, fun c hc' => ?_⟩
    obtain rfl | rfl | ⟨r, hr', rfl | ⟨msgs, rfl, -⟩⟩ := hc c hc' <;> rintro _ ⟨⟩ <;> exact hr r hr'
  · refine ⟨⟨Nat.le_succ_of_le hm, by rintro r ⟨⟩; exact hm⟩, ?_⟩
    rw [hc]
    rintro c hc' r hr'
    rw [List.mem_singleton.1 hc'] at hr'
    cases hr'
  · refine ⟨⟨hm, fun _ h => nomatch h⟩, ?_⟩
    rw [hc]
    rintro c hc' r'' hr''
    rw [List.mem_singleton.1 hc'] at hr''
    cases hr''
    exact hr r hr'

theorem run_fresh {m : Nat} (hi : Inv f smp) (hm : m ≤ smp.made) (hr : ∀ r ∈ smp.reader, m ≤ r.serial)
    (ops : List (Op f)) : ∀ e ∈ (smp.run ops).2, ∀ c ∈ e.2, ∀ r ∈ c.reader?, m ≤ r.serial := by
  induction ops generalizing smp with
  | nil => exact fun _ h => nomatch h
  | cons op ops ih =>
    obtain ⟨⟨hm', hr'⟩, hc⟩ := step_fresh hi hm hr op
    simp only [run_cons, List.mem_cons, forall_eq_or_imp]
    exact ⟨hc, ih (step_inv hi op) hm' hr'⟩

/-- **Every run.** However the methods of a provider made by `NewMessageProvider` are called, whatever kafka-go
answers and in whichever orders the maps are visited, `Inv` holds after each call, and every call into kafka-go goes
to a reader configured by `readerConfig`, with commits naming that reader's topic, or is `NewReader` with
`readerConfig`. -/
theorem newMessageProvider_run (f : Factory) (ops : List (Op f)) :
    Inv f (f.newMessageProvider.run ops).1 ∧ ∀ e ∈ (f.newMessageProvider.run ops).2, ∀ c ∈ e.2, CallOk f c :=
  ⟨run_inv (inv_newMessageProvider f) ops, run_callOk (inv_newMessageProvider f) ops⟩

/-- A `Start` that returns nil made a reader configured by `readerConfig`. -/
theorem step_start_ok (hf : smp.krpf = f) {o : RangeOrder f.props} (hs : (smp.step (.start o)).2.1 = .done none) :
    smp.step (.start o) = ({ smp with reader := some ⟨smp.made, readerConfig f⟩, made := smp.made + 1 }, .done none,
      [.newReader (readerConfig f)]) := by
  subst hf
  rcases start_eq_or o.perm with ⟨-, ⟨err, h⟩ | ⟨err, h⟩⟩ | ⟨-, h⟩ <;> simp [step, h] at hs ⊢

/-- **Replacing a reader.** When `Start` succeeds on a provider that already holds a reader `r`, neither `Start`
itself nor any later call goes to `r`: `r` is never closed. -/
theorem start_replaced_reader (hi : Inv f smp) {r : Reader} (hr : smp.reader = some r) {o : RangeOrder f.props}
    (hs : (smp.step (.start o)).2.1 = .done none) (ops : List (Op f)) :
    ∀ e ∈ (smp.run (.start o :: ops)).2, ∀ c ∈ e.2, c.reader? ≠ some r := by
  have hstep := step_start_ok hi.krpf hs
  have hfresh := run_fresh (m := smp.made) (step_inv hi (.start o)) (by rw [hstep]; exact Nat.le_succ _)
    (by rw [hstep]; rintro _ ⟨⟩; exact le_rfl) ops
  have hm := (hi.reader r hr).2
  intro e he c hc hcr
  rcases List.mem_cons.1 (by simpa only [run_cons] using he) with rfl | he
  · rw [hstep, List.mem_singleton] at hc
    rw [hc] at hcr
    cases hcr
  · have := hfresh e he c hc r hcr
    omega

/-- A factory whose only property is its broker list. -/
def ordersFactory : Factory :=
  newMessageProviderFactory (utf8 "orders")
    ⟨[(utf8 "bootstrap.servers", utf8 "kafka-1:9092,kafka-2:9092")], by decide⟩ (utf8 "tektite")

/-- The one order in which `Start` can visit the properties of `ordersFactory`. -/
def ordersProps : RangeOrder ordersFactory.props := ⟨ordersFactory.props.entries, .refl _⟩

/-- A provider of `ordersFactory` after its first `Start`. -/
def ordersStarted : Provider := (ordersFactory.newMessageProvider.step (.start ordersProps)).1

theorem start_replaced_reader_ordersStarted :
    Inv ordersFactory ordersStarted ∧ ordersStarted.reader = some ⟨0, readerConfig ordersFactory⟩ ∧
      (ordersStarted.step (.start ordersProps)).2.1 = .done none ∧
      ∀ e ∈ (ordersStarted.run ([.start ordersProps, .getMessage .deadlineExceeded, .close none] : List (Op _))).2,
        ∀ c ∈ e.2, c.reader? ≠ some ⟨0, readerConfig ordersFactory⟩ :=
  have hi : Inv ordersFactory ordersStarted := step_inv (inv_newMessageProvider _) _
  have hr : ordersStarted.reader = some ⟨0, readerConfig ordersFactory⟩ := rfl
  have hs : (ordersStarted.step (.start ordersProps)).2.1 = .done none := rfl
  ⟨hi, hr, hs, start_replaced_reader hi hr hs _⟩

/-- **No call after `Close`.** Once `Close` has dropped the reader `r` of a provider, no later call goes to `r`: it is
not fetched from, not committed to, and not closed a second time, whichever methods follow. -/
theorem close_reader_unused (hi : Inv f smp) {r : Reader} (hr : smp.reader = some r) (closed : Option (List UInt8))
    (ops : List (Op f)) : ∀ e ∈ ((smp.step (.close closed : Op f)).1.run ops).2, ∀ c ∈ e.2, c.reader? ≠ some r := by
  have hs : (smp.step (.close closed : Op f)).1 = { smp with reader := none } := by simp [step, close, hr]
  intro e he c hc hcr
  have := run_fresh (m := r.serial + 1) (step_inv hi (.close closed)) (by rw [hs]; exact (hi.reader r hr).2.le)
    (by rw [hs]; exact fun _ h => nomatch h) ops e he c hc r hcr
  omega

theorem close_reader_unused_ordersStarted :
    Inv ordersFactory ordersStarted ∧ ordersStarted.reader = some ⟨0, readerConfig ordersFactory⟩ ∧
      ∀ e ∈ ((ordersStarted.step (.close none : Op ordersFactory)).1.run
        [.getMessage .deadlineExceeded, .close none, .start ordersProps]).2,
        ∀ c ∈ e.2, c.reader? ≠ some ⟨0, readerConfig ordersFactory⟩ :=
  have hi : Inv ordersFactory ordersStarted := step_inv (inv_newMessageProvider _) _
  have hr : ordersStarted.reader = some ⟨0, readerConfig ordersFactory⟩ := rfl
  ⟨hi, hr, close_reader_unused hi hr none _⟩

end Provider

/-! ## Fetching and committing -/

namespace Provider

variable {smp : Provider} {r : Reader}

/-- **Committing a fetched message.** Committing the offset one past that of a message `GetMessage` returned, as
the caller does, commits the fetched message's own partition and offset on the provider's topic. -/
theorem commitOffsets_fetched (hr : smp.reader = some r) {msg : KafkaMessage} {m : Message}
    (hm : (smp.getMessage (.message msg)).1 = .ok (some m)) (hp₁ : -2 ^ 31 ≤ msg.partition)
    (hp₂ : msg.partition < 2 ^ 31) (ho₁ : -2 ^ 63 ≤ msg.offset) (ho₂ : msg.offset < 2 ^ 63)
    (committed : Option (List UInt8)) :
    smp.commitOffsets [(m.partitionID, toInt64 (m.offset + 1))] committed =
      (committed.map .kafka,
        [.commitMessages r [{ topic := smp.topicName, partition := msg.partition, offset := msg.offset }]]) := by
  simp only [getMessage, hr, Except.ok.injEq, Option.some.injEq] at hm
  subst hm
  simp [commitOffsets, hr, toMessage, toInt32_of_range hp₁ hp₂, toInt64_add_one_sub_one ho₁ ho₂]

/-- A message of the `orders` topic. -/
def orderMessage : KafkaMessage := { topic := utf8 "orders", partition := 3, offset := 41, value := utf8 "paid" }

theorem commitOffsets_fetched_orderMessage :
    ordersStarted.reader = some ⟨0, readerConfig ordersFactory⟩ ∧
      (ordersStarted.getMessage (.message orderMessage)).1 = .ok (some (toMessage orderMessage)) ∧
      -2 ^ 31 ≤ orderMessage.partition ∧ orderMessage.partition < 2 ^ 31 ∧
      -2 ^ 63 ≤ orderMessage.offset ∧ orderMessage.offset < 2 ^ 63 ∧
      ordersStarted.commitOffsets
          [((toMessage orderMessage).partitionID, toInt64 ((toMessage orderMessage).offset + 1))] none =
        (none, [.commitMessages ⟨0, readerConfig ordersFactory⟩
          [{ topic := ordersStarted.topicName, partition := orderMessage.partition, offset := orderMessage.offset }]]) :=
  have hr : ordersStarted.reader = some ⟨0, readerConfig ordersFactory⟩ := rfl
  have hm : (ordersStarted.getMessage (.message orderMessage)).1 = .ok (some (toMessage orderMessage)) := rfl
  ⟨hr, hm, by decide, by decide, by decide, by decide,
    commitOffsets_fetched hr hm (by decide) (by decide) (by decide) (by decide) none⟩

end Provider

/-! ## When the provider holds a reader -/

namespace Provider

variable {f : Factory} {smp : Provider}

example : ((ordersFactory.newMessageProvider.run [.start ordersProps, .close none]).1.close none).2.1 =
    .panic nilDereference := rfl

end Provider

end Tektite.Kafka
