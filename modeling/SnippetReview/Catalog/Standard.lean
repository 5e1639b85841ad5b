import SnippetReview.Catalog.Table

set_option autoImplicit false

namespace SnippetReview.Catalog

def mobileHosts : List Host := [.java, .kotlin, .cocoa, .dart, .dotnet]

def standardEntries : List Entry := [
  { key := "dsn", displayName := "DSN", category := .core, type := .string
    description := "Data Source Name that tells the SDK where to send events"
    required := true
    sample := "https://examplePublicKey@o0.ingest.sentry.io/0"
    guidance := "Load the DSN from an environment variable instead of committing it" },
  { key := "environment", displayName := "Environment", category := .core, type := .string
    description := "Environment name attached to every event, such as production or staging"
    defaultValue := "production"
    sample := "production"
    guidance := "Set it so issues and alerts can be filtered per deployment"
    aliases := ["environmentName"] },
  { key := "release", displayName := "Release", category := .core, type := .string
    description := "Release version used to link errors to deploys and source maps"
    sample := "my-app@1.0.0"
    guidance := "Use the same value your deploy tooling reports so suspect commits and regressions work"
    related := ["dist", "environment"]
    aliases := ["releaseName"] },
  { key := "dist", displayName := "Distribution", category := .core, type := .string
    description := "Build or distribution identifier within a release"
    related := ["release"] },
  { key := "serverName", displayName := "Server Name", category := .core, type := .string
    description := "Host name reported with events" },
  { key := "enabled", displayName := "Enabled", category := .core, type := .boolean
    description := "Turns event sending on or off entirely"
    defaultValue := "true" },
  { key := "sampleRate", displayName := "Error Sample Rate", category := .sampling, type := .number
    description := "Fraction of error events to send, from 0.0 to 1.0"
    defaultValue := "1.0" },
  { key := "tracesSampleRate", displayName := "Traces Sample Rate", category := .sampling, type := .number
    description := "Fraction of transactions to send for performance monitoring"
    sample := "0.2"
    guidance := "Start between 0.1 and 0.2 in production and tune with quota usage"
    warnings := ["Every sampled transaction counts against your performance quota"]
    related := ["tracesSampler", "enableTracing"] },
  { key := "tracesSampler", displayName := "Traces Sampler", category := .sampling, type := .callback
    description := "Function deciding the sample rate per transaction"
    related := ["tracesSampleRate"] },
  { key := "profilesSampleRate", displayName := "Profiles Sample Rate", category := .profiling, type := .number
    description := "Fraction of sampled transactions that are also profiled"
    related := ["tracesSampleRate"] },
  { key := "replaysSessionSampleRate", displayName := "Replay Session Sample Rate", category := .replay, type := .number
    description := "Fraction of all sessions recorded with Session Replay"
    warnings := ["Replays capture DOM content; review masking settings before raising this"]
    related := ["replaysOnErrorSampleRate"]
    hosts := some [.javascript] },
  { key := "replaysOnErrorSampleRate", displayName := "Replay On-Error Sample Rate", category := .replay, type := .number
    description := "Fraction of sessions recorded when an error occurs"
    related := ["replaysSessionSampleRate"]
    hosts := some [.javascript] },
  { key := "enableTracing", displayName := "Enable Tracing", category := .tracing, type := .boolean
    description := "Enables performance monitoring with the default sample rate"
    related := ["tracesSampleRate"] },
  { key := "tracePropagationTargets", displayName := "Trace Propagation Targets", category := .tracing, type := .array
    description := "URLs that receive distributed tracing headers"
    warnings := ["Overly broad targets leak tracing headers to third-party hosts"] },
  { key := "sendDefaultPii", displayName := "Send Default PII", category := .privacy, type := .boolean
    description := "Attach personally identifiable information such as IP addresses, cookies and user ids"
    defaultValue := "false"
    warnings := ["Sends personally identifiable information to Sentry; confirm this is covered by your privacy policy"]
    aliases := ["isSendDefaultPii"] },
  { key := "maxRequestBodySize", displayName := "Max Request Body Size", category := .privacy, type := .string
    description := "How much of HTTP request bodies is captured"
    warnings := ["Request bodies may contain credentials or personal data"] },
  { key := "beforeSend", displayName := "Before Send", category := .hooks, type := .callback
    description := "Hook that can modify or drop error events before they are sent"
    guidance := "Use it to scrub sensitive data or drop noisy events" },
  { key := "beforeSendTransaction", displayName := "Before Send Transaction", category := .hooks, type := .callback
    description := "Hook that can modify or drop transactions before they are sent" },
  { key := "beforeBreadcrumb", displayName := "Before Breadcrumb", category := .hooks, type := .callback
    description := "Hook that can modify or drop breadcrumbs" },
  { key := "ignoreErrors", displayName := "Ignore Errors", category := .filtering, type := .array
    description := "Error messages or exception types that are never reported"
    guidance := "Filter known noise at the source to save quota"
    aliases := ["excludedExceptions", "ignoredErrors"] },
  { key := "ignoreTransactions", displayName := "Ignore Transactions", category := .filtering, type := .array
    description := "Transaction names that are never reported" },
  { key := "denyUrls", displayName := "Deny URLs", category := .filtering, type := .array
    description := "Script URLs whose errors are dropped"
    hosts := some [.javascript] },
  { key := "allowUrls", displayName := "Allow URLs", category := .filtering, type := .array
    description := "Only errors from these script URLs are reported"
    hosts := some [.javascript] },
  { key := "inAppInclude", displayName := "In-App Include", category := .filtering, type := .array
    description := "Module prefixes treated as application code in stack traces" },
  { key := "inAppExclude", displayName := "In-App Exclude", category := .filtering, type := .array
    description := "Module prefixes treated as library code in stack traces" },
  { key := "integrations", displayName := "Integrations", category := .integrations, type := .array
    description := "Additional or customized SDK integrations" },
  { key := "defaultIntegrations", displayName := "Default Integrations", category := .integrations, type := .boolean
    description := "Whether the SDK installs its default integrations" },
  { key := "breadcrumbsLogger", displayName := "Breadcrumbs Logger", category := .integrations, type := .array
    description := "Sources that record breadcrumbs automatically"
    hosts := some [.ruby] },
  { key := "transport", displayName := "Transport", category := .transport, type := .object
    description := "Custom transport used to deliver events" },
  { key := "httpProxy", displayName := "HTTP Proxy", category := .transport, type := .string
    description := "Proxy used for outgoing HTTP requests" },
  { key := "httpsProxy", displayName := "HTTPS Proxy", category := .transport, type := .string
    description := "Proxy used for outgoing HTTPS requests" },
  { key := "shutdownTimeout", displayName := "Shutdown Timeout", category := .transport, type := .number
    description := "Time allowed to flush queued events on shutdown" },
  { key := "debug", displayName := "Debug", category := .debugging, type := .boolean
    description := "Prints SDK diagnostic output"
    defaultValue := "false"
    guidance := "Enable only while troubleshooting the SDK setup"
    aliases := ["isDebug"] },
  { key := "attachStacktrace", displayName := "Attach Stacktrace", category := .debugging, type := .boolean
    description := "Attach stack traces to message events"
    aliases := ["isAttachStacktrace"] },
  { key := "maxBreadcrumbs", displayName := "Max Breadcrumbs", category := .debugging, type := .number
    description := "Maximum number of breadcrumbs kept per event"
    defaultValue := "100" },
  { key := "diagnosticLevel", displayName := "Diagnostic Level", category := .debugging, type := .string
    description := "Verbosity of SDK diagnostic output when debug is on"
    related := ["debug"] },
  { key := "autoSessionTracking", displayName := "Auto Session Tracking", category := .sessions, type := .boolean
    description := "Tracks sessions for release health"
    aliases := ["enableAutoSessionTracking", "isEnableAutoSessionTracking"] },
  { key := "sessionTrackingIntervalMillis", displayName := "Session Tracking Interval", category := .sessions, type := .number
    description := "Background time after which a new session starts"
    hosts := some mobileHosts },
  { key := "attachScreenshot", displayName := "Attach Screenshot", category := .mobile, type := .boolean
    description := "Attach a screenshot to error events"
    warnings := ["Screenshots can contain personal data visible on screen"]
    hosts := some mobileHosts
    aliases := ["isAttachScreenshot"] },
  { key := "attachViewHierarchy", displayName := "Attach View Hierarchy", category := .mobile, type := .boolean
    description := "Attach the view hierarchy to error events"
    hosts := some mobileHosts
    aliases := ["isAttachViewHierarchy"] },
  { key := "anrEnabled", displayName := "ANR Detection", category := .mobile, type := .boolean
    description := "Report Application Not Responding events"
    hosts := some [.java, .kotlin]
    aliases := ["isAnrEnabled"] },
  { key := "enableAppHangTracking", displayName := "App Hang Tracking", category := .mobile, type := .boolean
    description := "Report app hangs on Apple platforms"
    hosts := some [.cocoa] },
  { key := "enableSourceCodeContext", displayName := "Source Code Context", category := .debugging, type := .boolean
    description := "Include source code lines around stack frames"
    hosts := some [.elixir] },
  { key := "rootSourceCodePaths", displayName := "Root Source Code Paths", category := .debugging, type := .array
    description := "Directories scanned for source code context"
    related := ["enableSourceCodeContext"]
    hosts := some [.elixir] }
]

def standard : Except CatalogError Catalog := ofEntries standardEntries

end SnippetReview.Catalog
