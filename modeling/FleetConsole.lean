import FleetConsole.Account
import FleetConsole.Command.Machines
import FleetConsole.Command.Problem
import FleetConsole.Command.Run
import FleetConsole.Command.Services
import FleetConsole.Command.Task
import FleetConsole.Command.Token
import FleetConsole.Command.World
import FleetConsole.CommandLine.Grammar
import FleetConsole.CommandLine.Invocation
import FleetConsole.CommandLine.Parse
import FleetConsole.Controller
import FleetConsole.Decimal.Double
import FleetConsole.Decimal.Read
import FleetConsole.Decimal.Shortest
import FleetConsole.Display.Field
import FleetConsole.Display.Instruction
import FleetConsole.Display.Listing
import FleetConsole.Display.Table
import FleetConsole.Dump.Delivery
import FleetConsole.Dump.Desk
import FleetConsole.Dump.Name
import FleetConsole.Failure
import FleetConsole.Gauge
import FleetConsole.Http.Header
import FleetConsole.Http.Message
import FleetConsole.Http.Redirect
import FleetConsole.Http.Status
import FleetConsole.Http.Wire
import FleetConsole.Json.Equality
import FleetConsole.Json.Number
import FleetConsole.Json.Read
import FleetConsole.Json.Record
import FleetConsole.Json.Value
import FleetConsole.Json.Write
import FleetConsole.Listing.Desk
import FleetConsole.Listing.Selection
import FleetConsole.Listing.Tracker
import FleetConsole.Listing.View
import FleetConsole.Machine.Basic
import FleetConsole.Machine.Page
import FleetConsole.Machine.Query
import FleetConsole.Main
import FleetConsole.Menu.Basic
import FleetConsole.Menu.Mounted
import FleetConsole.Notification
import FleetConsole.Server.Answer
import FleetConsole.Server.Basic
import FleetConsole.Server.Call
import FleetConsole.Server.Exchange
import FleetConsole.Server.Trouble
import FleetConsole.Session.Audience
import FleetConsole.Session.Basic
import FleetConsole.Settings.Convert
import FleetConsole.Settings.Draft
import FleetConsole.Settings.Problem
import FleetConsole.Settings.Sources
import FleetConsole.Settings.Validate
import FleetConsole.Storage.Tree
import FleetConsole.Text.Base64
import FleetConsole.Text.Blank
import FleetConsole.Text.Digits
import FleetConsole.Text.Quoted
import FleetConsole.Text.Utf8
import FleetConsole.Time.Calendar
import FleetConsole.Time.Instant
import FleetConsole.Token.Desk
import FleetConsole.Token.Panel
import FleetConsole.Toml.Document
import FleetConsole.Toml.Scan
import FleetConsole.Toml.Value
import FleetConsole.Url.Basic
import FleetConsole.Url.Domain
import FleetConsole.Url.Form
import FleetConsole.Url.Host
import FleetConsole.Url.Join
import FleetConsole.Url.Parse
import FleetConsole.Url.Percent
import FleetConsole.Url.Punycode
import FleetConsole.Yaml.Scalar
import FleetConsole.Yaml.Write
import FleetConsole.Proofs.Exchange
import FleetConsole.Proofs.Token.Step
import FleetConsole.Proofs.Token.Phase
import FleetConsole.Proofs.Token.Regeneration
import FleetConsole.Proofs.Token.Fetch
import FleetConsole.Proofs.Listing.Selection
import FleetConsole.Proofs.Listing.Tags
import FleetConsole.Proofs.Controller.Coherent
import FleetConsole.Proofs.Controller.Instruction
import FleetConsole.Proofs.Controller.Listing
import FleetConsole.Proofs.Controller.View
import FleetConsole.Proofs.Controller.Report
import FleetConsole.Proofs.Controller.Superseded
import FleetConsole.Proofs.Text.Chars
import FleetConsole.Proofs.Dump.Step
import FleetConsole.Proofs.Controller.Requests
import FleetConsole.Proofs.Controller.Awaited
import FleetConsole.Proofs.Controller.Loading
import FleetConsole.Proofs.Controller.Independence
import FleetConsole.Proofs.Storage.Tree
import FleetConsole.Proofs.Storage.Directory
import FleetConsole.Proofs.Except
import FleetConsole.Proofs.Dump.Delivery
import FleetConsole.Proofs.Dump.Deliveries
import FleetConsole.Proofs.Url.Path
import FleetConsole.Proofs.Url.Append
import FleetConsole.Proofs.Server.Request
import FleetConsole.Proofs.Command.Task
import FleetConsole.Proofs.Command.Turn
import FleetConsole.Proofs.Command.Dump
import FleetConsole.Proofs.Dump.Name
import FleetConsole.Proofs.Server.Call
import FleetConsole.Proofs.Command.List
import FleetConsole.Proofs.Command.Token
import FleetConsole.Proofs.Time.Calendar
import FleetConsole.Proofs.Text.Digits
import FleetConsole.Proofs.CommandLine.Flag
import FleetConsole.Proofs.CommandLine.Line
import FleetConsole.Proofs.Time.Instant
import FleetConsole.Proofs.Json.Fields
import FleetConsole.Proofs.Json.Scalar
import FleetConsole.Proofs.Json.Written
import FleetConsole.Proofs.Json.Kept
import FleetConsole.Proofs.Json.Record
import FleetConsole.Proofs.Machine.Read
import FleetConsole.Proofs.Machine.Page
import FleetConsole.Proofs.Machine.Written
import FleetConsole.Proofs.Listing.Printed
import FleetConsole.Proofs.Text.Utf8
import FleetConsole.Proofs.Url.Form
import FleetConsole.Proofs.Url.Host
import FleetConsole.Proofs.Server.Attachment
import FleetConsole.Proofs.Server.Query
import FleetConsole.Proofs.Url.Below
import FleetConsole.Proofs.Server.Address
import FleetConsole.Proofs.Server.Reason
import FleetConsole.Proofs.Url.Login
import FleetConsole.Proofs.Server.Session
import FleetConsole.Proofs.Settings.Setting
import FleetConsole.Proofs.Settings.Draft
import FleetConsole.Proofs.Settings.Precedence
import FleetConsole.Proofs.Settings.Masked
import FleetConsole.Proofs.Session.Step
import FleetConsole.Proofs.Session.Missed
import FleetConsole.Proofs.Menu.Refresh
import FleetConsole.Proofs.Text.Lines
import FleetConsole.Proofs.Display.Table
import FleetConsole.Proofs.Display.Machines
