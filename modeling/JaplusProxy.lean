import JaplusProxy.Commands.TruncationProofs
import JaplusProxy.Userinfo.PolicyProofs
import JaplusProxy.Boundary.MediationProofs
import JaplusProxy.Flood.RconProofs
import JaplusProxy.Flood.IndependenceProofs
import JaplusProxy.Hooks.ReportProofs
import JaplusProxy.Hooks.InstallProofs
import JaplusProxy.Flood.WindowProofs
import JaplusProxy.Flood.RefinementProofs
import JaplusProxy.Manager.PidFilesProofs
import JaplusProxy.Manager.DeployProofs
import JaplusProxy.Manager.SessionsProofs
import JaplusProxy.Manager.SuperviseProofs
import JaplusProxy.Manager.VerifyProofs
import JaplusProxy.Manager.GiveUpProofs
import JaplusProxy.Manager.PluginProofs
import JaplusProxy.Flood.EvictionProofs
import JaplusProxy.Flood.DropReportProofs
import JaplusProxy.Hooks.EncodingProofs
import JaplusProxy.Boundary.CheatProofs
import JaplusProxy.Boundary.TraversalProofs
import JaplusProxy.Userinfo.RewriteProofs
import JaplusProxy.Userinfo.NameProofs
import JaplusProxy.Userinfo.StableNameProofs
import JaplusProxy.Userinfo.PairListProofs
import JaplusProxy.Userinfo.ForcepowersProofs
import JaplusProxy.Manager.LogWatcherProofs
import JaplusProxy.Manager.ShutdownProofs
import JaplusProxy.Manager.TemplateProofs
import JaplusProxy.Commands.JoinProofs
import JaplusProxy.Flood.ConfigProofs
import JaplusProxy.Flood.AdminProofs
import JaplusProxy.Hooks.LiveProofs
import JaplusProxy.Boundary.DeployedProofs
import JaplusProxy.Plugins.PluginManagerProofs
import JaplusProxy.Plugins.AutoMessage
import JaplusProxy.Manager.Dotenv
import JaplusProxy.Manager.ChatProofs
import JaplusProxy.Boundary.LaunchedProofs
import JaplusProxy.Manager.QuoteProofs
