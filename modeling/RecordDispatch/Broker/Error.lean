import RecordDispatch.Broker.Code
import RecordDispatch.Text.Quoted

/-!
# Errors of the broker client

A call of the broker client fails because the client is closed, because the
broker is not available, or with an error of the underlying protocol client.
-/

namespace RecordDispatch.Broker

/-- The calls of the protocol client that fail with an error code. -/
inductive Call
  | administration
  | consumerCommit
  | consumerQueueClose
  | flush
  | global
  | groupListFetch
  | messageConsumption
  | messageProduction
  | metadataFetch
  | offsetFetch
  | rebalance
  | setPartitionOffset
  | storeOffset
  | mockCluster
deriving DecidableEq

/-- How messages name a call. -/
def Call.title : Call → String
  | .administration => "Admin operation error"
  | .consumerCommit => "Consumer commit error"
  | .consumerQueueClose => "Consumer queue close error"
  | .flush => "Flush error"
  | .global => "Global error"
  | .groupListFetch => "Group list fetch error"
  | .messageConsumption => "Message consumption error"
  | .messageProduction => "Message production error"
  | .metadataFetch => "Meta data fetch error"
  | .offsetFetch => "Offset fetch error"
  | .rebalance => "Rebalance error"
  | .setPartitionOffset => "Set partition offset error"
  | .storeOffset => "Store offset error"
  | .mockCluster => "Mock cluster error"

/-- The calls of the protocol client that fail with a text. -/
inductive Action
  | administration
  | clientCreation
  | pauseResume
  | seek
  | subscription
deriving DecidableEq

/-- How messages name an action. -/
def Action.title : Action → String
  | .administration => "Admin operation creation error"
  | .clientCreation => "Client creation error"
  | .pauseResume => "Pause/resume error"
  | .seek => "Seek error"
  | .subscription => "Subscription error"

/-- The call with a given identifier. -/
def Call.ofIdentifier? : String → Option Call
  | "admin_op" => some .administration
  | "consumer_commit" => some .consumerCommit
  | "consumer_queue_close" => some .consumerQueueClose
  | "flush" => some .flush
  | "global" => some .global
  | "group_list_fetch" => some .groupListFetch
  | "message_consumption" => some .messageConsumption
  | "message_production" => some .messageProduction
  | "metadata_fetch" => some .metadataFetch
  | "offset_fetch" => some .offsetFetch
  | "rebalance" => some .rebalance
  | "set_partition_offset" => some .setPartitionOffset
  | "store_offset" => some .storeOffset
  | "mock_cluster" => some .mockCluster
  | _ => none

/-- The action with a given identifier. -/
def Action.ofIdentifier? : String → Option Action
  | "admin_op_creation" => some .administration
  | "client_creation" => some .clientCreation
  | "pause_resume" => some .pauseResume
  | "seek" => some .seek
  | "subscription" => some .subscription
  | _ => none

/-- An error of the protocol client. -/
inductive ClientError
  | code (call : Call) (code : Code)
  | fatalConsumption (code : Code)
  | refused (action : Action) (reason : String)
  | configuration (description key value : String)
  | partitionEof (number : Int)
  | canceled
  | noMessageReceived
deriving DecidableEq

namespace ClientError

/-- The error code, if there is one. -/
def code? : ClientError → Option Code
  | .code _ c => some c
  | .fatalConsumption c => some c
  | _ => none

/-- The words for a client error. -/
def message : ClientError → String
  | .code call c => call.title ++ ": " ++ c.message
  | .fatalConsumption c =>
    "(Fatal) " ++ Call.messageConsumption.title ++ ": " ++ c.message
  | .refused action reason => action.title ++ ": " ++ reason
  | .configuration description key value =>
    "Client config error: " ++ description ++ " " ++ key ++ " " ++ value
  | .partitionEof number => "Partition EOF: " ++ toString number
  | .canceled => "KafkaError (Client dropped)"
  | .noMessageReceived => "No message received within the given poll interval"

/-- The form in which log lines show a client error.  It spells one call in
another way than messages do. -/
def shown : ClientError → String
  | .code .metadataFetch c => "KafkaError (Metadata fetch error: " ++ c.message ++ ")"
  | .fatalConsumption c =>
    "(Fatal) KafkaError (" ++ Call.messageConsumption.title ++ ": " ++ c.message ++ ")"
  | .canceled => message .canceled
  | .noMessageReceived => message .noMessageReceived
  | e => "KafkaError (" ++ e.message ++ ")"

end ClientError

/-- Why a call of the broker client failed. -/
inductive Error
  | client (error : ClientError)
  | closed
  | unavailable (text : String)
deriving DecidableEq

namespace Error

/-- The words for an error. -/
def message : Error → String
  | .client e => "kafka client error: " ++ e.message
  | .closed => "broker client is closed"
  | .unavailable text => "broker unavailable: " ++ text

/-- The form in which log lines show an error. -/
def shown : Error → String
  | .client e => "Kafka(" ++ e.shown ++ ")"
  | .closed => "Closed"
  | .unavailable text => "Unavailable(" ++ Text.quoted text ++ ")"

/-- The short name under which an error is counted. -/
def kind : Error → String
  | .client e =>
    match e.code? with
    | some .allBrokersDown => "all_brokers_down"
    | some .brokerTransportFailure => "broker_transport"
    | some .operationTimedOut => "op_timed_out"
    | some .offsetOutOfRange => "offset_out_of_range"
    | some .authentication => "authentication"
    | _ => "kafka"
  | .closed => "closed"
  | .unavailable _ => "unavailable"

end Error
end RecordDispatch.Broker
