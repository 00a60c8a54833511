import RecordDispatch.Config.Basic

/-!
# The printed configuration

The configuration as the log shows it: every field by name, in order, and
a placeholder for the credential.
-/

namespace RecordDispatch

/-- The placeholder for a credential. -/
def Secret.shown (_ : Secret) : String :=
  Text.quoted "***"

namespace Config

/-- The fields of a configuration with their printed values. -/
def shownFields (c : Config) : List (String × String) :=
  [("kafka_hosts", Text.quoted c.hosts),
    ("kafka_tls", toString c.tls),
    ("kafka_consumer_group", Text.quoted c.group),
    ("kafka_consumer_topic", Text.quoted c.topic),
    ("kafka_consumer_offset_reset", Text.quoted c.offsetReset),
    ("kafka_max_poll_records", toString c.maxPollRecords),
    ("kafka_max_poll_interval_ms", toString c.maxPollIntervalMillis),
    ("dispatch_mode", c.mode.name),
    ("worker_pool_size", Text.optional toString c.workers),
    ("poll_timeout_ms", toString c.pollTimeoutMillis),
    ("poll_error_backoff_ms", toString c.pollErrorBackoffMillis),
    ("idle_interval_ms", toString c.idleIntervalMillis),
    ("commit_interval_ms", toString c.commitIntervalMillis),
    ("commit_sync", toString c.commitSync),
    ("monitor_interval_ms", toString c.monitorIntervalMillis),
    ("shutdown_timeout_ms", toString c.shutdownTimeoutMillis),
    ("revoke_drain_timeout_ms", toString c.revokeDrainTimeoutMillis),
    ("missing_credential_policy", c.missingCredentialPolicy.name),
    ("default_api_key", Text.optional Secret.shown c.defaultApiKey),
    ("executor_url", Text.optional Text.quoted c.executorUrl),
    ("executor_timeout_ms", toString c.executorTimeoutMillis),
    ("host", Text.quoted c.host),
    ("port", toString c.port),
    ("log_format", c.logFormat.name)]

/-- The printed configuration. -/
def shown (c : Config) : String :=
  "Config \x7b " ++ ", ".intercalate (c.shownFields.map fun f => f.1 ++ ": " ++ f.2) ++
    " \x7d"

end Config
end RecordDispatch
