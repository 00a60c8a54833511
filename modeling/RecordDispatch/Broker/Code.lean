/-!
# Error codes of the log broker

The codes with which the broker and the client that talks to it answer.  Each
has a name and a description, and messages show both.
-/

namespace RecordDispatch.Broker

/-- An error code. -/
inductive Code
  | badMessage
  | badCompression
  | destroy
  | fail
  | brokerTransportFailure
  | criticalSystemResource
  | resolve
  | messageTimedOut
  | partitionEof
  | unknownPartition
  | fileSystem
  | unknownTopic
  | allBrokersDown
  | invalidArgument
  | operationTimedOut
  | queueFull
  | isrInsufficient
  | nodeUpdate
  | ssl
  | waitingForCoordinator
  | unknownGroup
  | inProgress
  | previousInProgress
  | existingSubscription
  | assignPartitions
  | revokePartitions
  | conflict
  | state
  | unknownProtocol
  | notImplemented
  | authentication
  | noOffset
  | outdated
  | timedOutQueue
  | fatal
  | pollExceeded
  | unknown
  | noError
  | offsetOutOfRange
  | invalidMessage
  | unknownTopicOrPartition
  | invalidMessageSize
  | leaderNotAvailable
  | notLeaderForPartition
  | requestTimedOut
  | brokerNotAvailable
  | replicaNotAvailable
  | messageSizeTooLarge
  | staleControllerEpoch
  | offsetMetadataTooLarge
  | networkException
  | coordinatorLoadInProgress
  | coordinatorNotAvailable
  | notCoordinator
  | invalidTopic
  | messageBatchTooLarge
  | notEnoughReplicas
  | notEnoughReplicasAfterAppend
  | invalidRequiredAcks
  | illegalGeneration
  | inconsistentGroupProtocol
  | invalidGroupId
  | unknownMemberId
  | invalidSessionTimeout
  | rebalanceInProgress
  | invalidCommitOffsetSize
  | topicAuthorizationFailed
  | groupAuthorizationFailed
  | clusterAuthorizationFailed
  | saslAuthenticationFailed
deriving DecidableEq

/-- The identifier, the name and the description of each code.  The identifier
is the name in lower case with underscores. -/
def Code.table : List (Code × String × String × String) :=
  [(.badMessage, "bad_message", "BadMessage", "Local: Bad message format"),
   (.badCompression, "bad_compression", "BadCompression",
    "Local: Invalid compressed data"),
   (.destroy, "destroy", "Destroy", "Local: Broker handle destroyed"),
   (.fail, "fail", "Fail", "Local: Communication failure with broker"),
   (.brokerTransportFailure, "broker_transport_failure", "BrokerTransportFailure",
    "Local: Broker transport failure"),
   (.criticalSystemResource, "critical_system_resource", "CriticalSystemResource",
    "Local: Critical system resource failure"),
   (.resolve, "resolve", "Resolve", "Local: Host resolution failure"),
   (.messageTimedOut, "message_timed_out", "MessageTimedOut",
    "Local: Message timed out"),
   (.partitionEof, "partition_eof", "PartitionEOF", "Broker: No more messages"),
   (.unknownPartition, "unknown_partition", "UnknownPartition",
    "Local: Unknown partition"),
   (.fileSystem, "file_system", "FileSystem", "Local: File or filesystem error"),
   (.unknownTopic, "unknown_topic", "UnknownTopic", "Local: Unknown topic"),
   (.allBrokersDown, "all_brokers_down", "AllBrokersDown",
    "Local: All broker connections are down"),
   (.invalidArgument, "invalid_argument", "InvalidArgument",
    "Local: Invalid argument or configuration"),
   (.operationTimedOut, "operation_timed_out", "OperationTimedOut",
    "Local: Timed out"),
   (.queueFull, "queue_full", "QueueFull", "Local: Queue full"),
   (.isrInsufficient, "isr_insufficient", "ISRInsufficient",
    "Local: ISR count insufficient"),
   (.nodeUpdate, "node_update", "NodeUpdate", "Local: Broker node update"),
   (.ssl, "ssl", "SSL", "Local: SSL error"),
   (.waitingForCoordinator, "waiting_for_coordinator", "WaitingForCoordinator",
    "Local: Waiting for coordinator"),
   (.unknownGroup, "unknown_group", "UnknownGroup", "Local: Unknown group"),
   (.inProgress, "in_progress", "InProgress", "Local: Operation in progress"),
   (.previousInProgress, "previous_in_progress", "PreviousInProgress",
    "Local: Previous operation in progress"),
   (.existingSubscription, "existing_subscription", "ExistingSubscription",
    "Local: Existing subscription"),
   (.assignPartitions, "assign_partitions", "AssignPartitions",
    "Local: Assign partitions"),
   (.revokePartitions, "revoke_partitions", "RevokePartitions",
    "Local: Revoke partitions"),
   (.conflict, "conflict", "Conflict", "Local: Conflicting use"),
   (.state, "state", "State", "Local: Erroneous state"),
   (.unknownProtocol, "unknown_protocol", "UnknownProtocol",
    "Local: Unknown protocol"),
   (.notImplemented, "not_implemented", "NotImplemented", "Local: Not implemented"),
   (.authentication, "authentication", "Authentication",
    "Local: Authentication failure"),
   (.noOffset, "no_offset", "NoOffset", "Local: No offset stored"),
   (.outdated, "outdated", "Outdated", "Local: Outdated"),
   (.timedOutQueue, "timed_out_queue", "TimedOutQueue", "Local: Timed out in queue"),
   (.fatal, "fatal", "Fatal", "Local: Fatal error"),
   (.pollExceeded, "poll_exceeded", "PollExceeded",
    "Local: Maximum application poll interval (max.poll.interval.ms) exceeded"),
   (.unknown, "unknown", "Unknown", "Unknown broker error"),
   (.noError, "no_error", "NoError", "Success"),
   (.offsetOutOfRange, "offset_out_of_range", "OffsetOutOfRange",
    "Broker: Offset out of range"),
   (.invalidMessage, "invalid_message", "InvalidMessage", "Broker: Invalid message"),
   (.unknownTopicOrPartition, "unknown_topic_or_partition", "UnknownTopicOrPartition",
    "Broker: Unknown topic or partition"),
   (.invalidMessageSize, "invalid_message_size", "InvalidMessageSize",
    "Broker: Invalid message size"),
   (.leaderNotAvailable, "leader_not_available", "LeaderNotAvailable",
    "Broker: Leader not available"),
   (.notLeaderForPartition, "not_leader_for_partition", "NotLeaderForPartition",
    "Broker: Not leader for partition"),
   (.requestTimedOut, "request_timed_out", "RequestTimedOut",
    "Broker: Request timed out"),
   (.brokerNotAvailable, "broker_not_available", "BrokerNotAvailable",
    "Broker: Broker not available"),
   (.replicaNotAvailable, "replica_not_available", "ReplicaNotAvailable",
    "Broker: Replica not available"),
   (.messageSizeTooLarge, "message_size_too_large", "MessageSizeTooLarge",
    "Broker: Message size too large"),
   (.staleControllerEpoch, "stale_controller_epoch", "StaleControllerEpoch",
    "Broker: StaleControllerEpochCode"),
   (.offsetMetadataTooLarge, "offset_metadata_too_large", "OffsetMetadataTooLarge",
    "Broker: Offset metadata string too large"),
   (.networkException, "network_exception", "NetworkException",
    "Broker: Broker disconnected before response received"),
   (.coordinatorLoadInProgress, "coordinator_load_in_progress",
    "CoordinatorLoadInProgress", "Broker: Coordinator load in progress"),
   (.coordinatorNotAvailable, "coordinator_not_available", "CoordinatorNotAvailable",
    "Broker: Coordinator not available"),
   (.notCoordinator, "not_coordinator", "NotCoordinator", "Broker: Not coordinator"),
   (.invalidTopic, "invalid_topic", "InvalidTopic", "Broker: Invalid topic"),
   (.messageBatchTooLarge, "message_batch_too_large", "MessageBatchTooLarge",
    "Broker: Message batch larger than configured server segment size"),
   (.notEnoughReplicas, "not_enough_replicas", "NotEnoughReplicas",
    "Broker: Not enough in-sync replicas"),
   (.notEnoughReplicasAfterAppend, "not_enough_replicas_after_append",
    "NotEnoughReplicasAfterAppend",
    "Broker: Message(s) written to insufficient number of in-sync replicas"),
   (.invalidRequiredAcks, "invalid_required_acks", "InvalidRequiredAcks",
    "Broker: Invalid required acks value"),
   (.illegalGeneration, "illegal_generation", "IllegalGeneration",
    "Broker: Specified group generation id is not valid"),
   (.inconsistentGroupProtocol, "inconsistent_group_protocol",
    "InconsistentGroupProtocol", "Broker: Inconsistent group protocol"),
   (.invalidGroupId, "invalid_group_id", "InvalidGroupId", "Broker: Invalid group.id"),
   (.unknownMemberId, "unknown_member_id", "UnknownMemberId",
    "Broker: Unknown member"),
   (.invalidSessionTimeout, "invalid_session_timeout", "InvalidSessionTimeout",
    "Broker: Invalid session timeout"),
   (.rebalanceInProgress, "rebalance_in_progress", "RebalanceInProgress",
    "Broker: Group rebalance in progress"),
   (.invalidCommitOffsetSize, "invalid_commit_offset_size", "InvalidCommitOffsetSize",
    "Broker: Commit offset data size is not valid"),
   (.topicAuthorizationFailed, "topic_authorization_failed",
    "TopicAuthorizationFailed", "Broker: Topic authorization failed"),
   (.groupAuthorizationFailed, "group_authorization_failed",
    "GroupAuthorizationFailed", "Broker: Group authorization failed"),
   (.clusterAuthorizationFailed, "cluster_authorization_failed",
    "ClusterAuthorizationFailed", "Broker: Cluster authorization failed"),
   (.saslAuthenticationFailed, "sasl_authentication_failed",
    "SaslAuthenticationFailed", "Broker: SASL Authentication failed")]

/-- A code's name with its description. -/
def Code.message (c : Code) : String :=
  match Code.table.lookup c with
  | some (_, name, description) => name ++ " (" ++ description ++ ")"
  | none => ""

/-- The code with a given identifier. -/
def Code.ofIdentifier? (identifier : String) : Option Code :=
  (Code.table.find? fun e => e.2.1 = identifier).map (·.1)

end RecordDispatch.Broker
